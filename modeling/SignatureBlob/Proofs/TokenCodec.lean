import SignatureBlob.Proofs.EmissionGrammar
import SignatureBlob.Proofs.IntegerCodec

/-!
# Tokens written and read

A token in its coded form is one unsigned integer. Reading it is reading the integer and then
judging it: the tag must belong to a table and the row must fit into a token. A number that is
judged well and its token determine each other, so that nothing is lost between the two; a number
that is judged ill is put back.

Main statement: `CodedToken.write_and_decode`.
-/

namespace SignatureBlob

open Decoder CompressedInt

/-! ## Tokens as words of 32 bits -/

namespace Token

/-- The table stands in the high byte of the word and the row below it. -/
theorem value_ofParts {table : TypeTable} {row : Nat} (h : row < rowLimit) :
    (ofParts table row).value = table.byte.toUInt32 <<< 24 ||| UInt32.ofNat row := by
  have hlimit : rowLimit = 2 ^ 24 := rfl
  have hbyte : table.byte.toNat ≤ 0x1B := by cases table <;> decide
  have hrow : (UInt32.ofNat row).toNat = row := by
    rw [UInt32.toNat_ofNat']
    omega
  have hshift : (table.byte.toUInt32 <<< 24).toNat = 2 ^ 24 * table.byte.toNat := by
    cases table <;> rfl
  rw [← UInt32.toNat_inj, toNat_ofParts, Nat.mod_eq_of_lt h, UInt32.toNat_or, hshift, hrow,
    ← Nat.two_pow_add_eq_or_of_lt (hlimit ▸ h), hlimit, Nat.mul_comm]

end Token

/-- Each of three bytes is the number of a table of types, and no other byte is. -/
theorem TypeTable.isSome_ofByte?_iff {byte : UInt8} :
    (ofByte? byte).isSome = true ↔ byte = 0x01 ∨ byte = 0x02 ∨ byte = 0x1B := by
  constructor
  · intro h
    obtain ⟨table, htable⟩ := Option.isSome_iff_exists.1 h
    rw [← byte_of_ofByte? htable]
    cases table <;> decide
  · rintro (rfl | rfl | rfl) <;> rfl

namespace CodedToken

/-! ## Numbers and their tokens -/

/-- Three of the four tags belong to tables. -/
theorem ofTag?_eq_none_iff : ∀ tag < 4, (ofTag? tag = none ↔ tag = 3) := by decide

/-- A number is a token exactly if its tag belongs to a table and its row fits. -/
theorem exists_ofCode_eq_ok_iff {number : Nat} :
    (∃ token, ofCode number = .ok token) ↔ number % 4 ≠ 3 ∧ number / 4 ≤ 0xFFFFFF := by
  have htag := ofTag?_eq_none_iff (number % 4) (Nat.mod_lt _ (by decide))
  have hlimit : number / 4 < Token.rowLimit ↔ number / 4 ≤ 0xFFFFFF := Nat.lt_succ_iff
  rw [Ne, ← htag, ← hlimit, ofCode]
  cases ofTag? (number % 4) with
  | none => simp
  | some table => by_cases hrow : number / 4 < Token.rowLimit <;> simp [hrow]

/-- The number of a token, which says where the token points. -/
theorem ofCode_eq_ok_iff {number : Nat} {token : Token} :
    ofCode number = .ok token ↔
      ∃ table, token.typeTable? = some table ∧ number = code table token.row := by
  constructor
  · intro h
    obtain ⟨table, row, hrow, rfl, rfl⟩ := exists_of_ofCode h
    refine ⟨table, Token.typeTable?_ofParts table row, ?_⟩
    rw [Token.row_ofParts, Nat.mod_eq_of_lt hrow]
  · rintro ⟨table, htable, rfl⟩
    rw [ofCode_code token.row_lt, Token.ofParts_row htable]

/-! ## Reading -/

/-- A coded token is read as its number is, and the number is then judged. -/
theorem run_decode (start : Cursor) :
    decode.run start =
      match decodeUnsigned.run start with
      | .error error _ => .error error start
      | .ok number stop =>
        match ofCode number with
        | .ok token => .ok token stop
        | .error defect =>
          .error (.invalidEncoding start.position (start.ahead.headD 0) defect) start := by
  obtain ⟨place, _ | ⟨lead, ahead⟩⟩ := start
  · rfl
  · rw [decode_eq_transaction, transaction, located_bind_eq]
    dsimp only
    rw [run_bind_ok (run_position _), run_bind_ok (run_peek_cons _ _ _)]
    cases hrun : decodeUnsigned.run ⟨place, lead :: ahead⟩ with
    | error error stop => rw [run_bind_error hrun]
    | ok number stop =>
      rw [run_bind_ok hrun]
      dsimp only
      cases ofCode number <;> rfl

/-- A token is read exactly if a number is read that is one. -/
theorem run_decode_eq_ok_iff {start stop : Cursor} {token : Token} :
    decode.run start = .ok token stop ↔
      ∃ number, decodeUnsigned.run start = .ok number stop ∧ ofCode number = .ok token := by
  rw [run_decode]
  cases hrun : decodeUnsigned.run start with
  | error error place => simp
  | ok number place =>
    cases hcode : ofCode number with
    | error defect => simp [hcode]
    | ok other => simp [hcode, and_comm]

/-- A number that is no token is put back, and its first byte is to blame. -/
theorem of_run_decode_eq_error {start stop : Cursor} {error : Error}
    (h : decode.run start = .error error stop) :
    stop = start ∧
      (decodeUnsigned.run start = .error error start ∨
        ∃ number place lead defect, decodeUnsigned.run start = .ok number place ∧
          start.ahead.head? = some lead ∧ ofCode number = .error defect ∧
          error = .invalidEncoding start.position lead defect) := by
  rw [run_decode] at h
  cases hrun : decodeUnsigned.run start with
  | error cause place =>
    rw [hrun] at h
    obtain ⟨rfl, rfl⟩ := Outcome.error.inj h
    obtain rfl := atomic_decodeUnsigned _ _ _ hrun
    exact ⟨rfl, .inl rfl⟩
  | ok number place =>
    have hread : ∃ number place, decodeUnsigned.run start = .ok number place := ⟨_, _, hrun⟩
    rw [decodeUnsigned_eq_map, exists_run_map_iff, exists_run_decodeForm_iff] at hread
    obtain ⟨lead, hhead, -⟩ := hread
    have hlead : start.ahead.headD 0 = lead := by rw [List.headD_eq_head?_getD, hhead]; rfl
    rw [hrun, hlead] at h
    cases hcode : ofCode number with
    | ok token =>
      simp only [hcode] at h
      cases h
    | error defect =>
      simp only [hcode] at h
      obtain ⟨rfl, rfl⟩ := Outcome.error.inj h
      exact ⟨rfl, .inr ⟨number, place, lead, defect, rfl, hhead, hcode, rfl⟩⟩

/-! ## Both ways -/

/-- A token that points into a table of types is written as its number in the shortest form. -/
theorem exists_form_write {number : Nat} {token : Token} (h : ofCode number = .ok token) :
    ∃ form, Form.forUnsigned? number = some form ∧
      ∀ buffer, write token buffer = (.ok (), buffer ++ form.encode number) := by
  obtain ⟨table, htable, rfl⟩ := ofCode_eq_ok_iff.1 h
  have hlt : code table token.row < Form.four.span :=
    Nat.lt_succ_of_le (code_le_maxUnsigned table token)
  obtain ⟨form, hform, -⟩ := Form.exists_forUnsigned? hlt
  refine ⟨form, hform, fun buffer => ?_⟩
  rw [write, put, htable]
  exact writeUnsigned_of_form hform buffer

/-- A token is written exactly if it points into a table of types, and it is read back wherever its
bytes stand. A token is read exactly where a number is that has the tag of a table and a row of 24
bits. The number says the table and the row of the token, and the token says the number: no two
numbers are read as one token, and what would be written for the token is the number. A number that
is no token is put back. -/
theorem write_and_decode :
    (∀ (token : Token) (buffer : List UInt8),
      (token.typeTable?.isSome = true ↔
        token.table = 0x01 ∨ token.table = 0x02 ∨ token.table = 0x1B) ∧
      if token.typeTable?.isSome then
        ∃ bytes, write token buffer = (.ok (), buffer ++ bytes) ∧
          ∀ ahead, decode.run ⟨buffer.length, (buffer ++ bytes ++ ahead).drop buffer.length⟩ =
            .ok token ⟨buffer.length + bytes.length, ahead⟩
      else write token buffer =
        (.error (.invalidEncoding buffer.length token.table (.tokenTable token)), buffer)) ∧
    ∀ start : Cursor,
      (∀ stop, (∃ token, decode.run start = .ok token stop) ↔
        ∃ number, decodeUnsigned.run start = .ok number stop ∧ number % 4 ≠ 3 ∧
          number / 4 ≤ 0xFFFFFF) ∧
      (∀ token stop, decode.run start = .ok token stop →
        ∃ number table, decodeUnsigned.run start = .ok number stop ∧
          ofTag? (number % 4) = some table ∧ token.typeTable? = some table ∧
          token.row = number / 4 ∧ Token.ofParts table token.row = token ∧
          token.value = table.byte.toUInt32 <<< 24 ||| UInt32.ofNat (number / 4) ∧
          (∀ other place, decode.run other = .ok token place →
            decodeUnsigned.run other = .ok number place) ∧
          ∃ form, Form.forUnsigned? number = some form ∧
            ∀ buffer, write token buffer = (.ok (), buffer ++ form.encode number)) ∧
      ∀ error stop, decode.run start = .error error stop → stop = start ∧
        (decodeUnsigned.run start = .error error start ∨
          ∃ number place lead defect, decodeUnsigned.run start = .ok number place ∧
            start.ahead.head? = some lead ∧ ofCode number = .error defect ∧
            error = .invalidEncoding start.position lead defect) := by
  refine ⟨fun token buffer => ⟨TypeTable.isSome_ofByte?_iff, ?_⟩,
    fun start => ⟨fun stop => ?_, ?_, fun error stop => of_run_decode_eq_error⟩⟩
  · split
    next hsome =>
      obtain ⟨table, htable⟩ := Option.isSome_iff_exists.1 hsome
      have hcode := ofCode_eq_ok_iff.2 ⟨table, htable, rfl⟩
      obtain ⟨form, hform, hwrite⟩ := exists_form_write hcode
      refine ⟨_, hwrite buffer, fun ahead => ?_⟩
      rw [run_decode_eq_ok_iff, Form.length_encode]
      exact ⟨_, run_decodeUnsigned_encode (Form.lt_span_of_forUnsigned? hform) buffer ahead, hcode⟩
    next hnone =>
      rw [write, put, Option.not_isSome_iff_eq_none.1 hnone]
      rfl
  · simp only [run_decode_eq_ok_iff, ← exists_ofCode_eq_ok_iff]
    constructor
    · rintro ⟨token, number, hrun, hcode⟩
      exact ⟨number, hrun, token, hcode⟩
    · rintro ⟨number, hrun, token, hcode⟩
      exact ⟨token, number, hrun, hcode⟩
  · intro token stop hdecode
    obtain ⟨number, hrun, hcode⟩ := run_decode_eq_ok_iff.1 hdecode
    obtain ⟨table, htable, hnumber⟩ := ofCode_eq_ok_iff.1 hcode
    have hrow : token.row = number / 4 := by rw [hnumber, code_div]
    have hparts := Token.ofParts_row htable
    refine ⟨number, table, hrun, ?_, htable, hrow, hparts, ?_, ?_, exists_form_write hcode⟩
    · rw [hnumber, code_mod, ofTag?_tag]
    · rw [← hrow, ← Token.value_ofParts token.row_lt, hparts]
    · -- the number can be had from the token alone
      intro other place hother
      obtain ⟨number', hrun', hcode'⟩ := run_decode_eq_ok_iff.1 hother
      obtain ⟨table', htable', hnumber'⟩ := ofCode_eq_ok_iff.1 hcode'
      obtain rfl : table = table' := Option.some.inj (htable.symm.trans htable')
      rwa [hnumber, ← hnumber']

/-- A row that takes two bytes, and a number whose tag belongs to no table. -/
theorem write_and_decode_typeRef :
    (∃ number form, decodeUnsigned.run (.start [0x84, 0xB1, 0x00]) = .ok number ⟨2, [0x00]⟩ ∧
      Form.forUnsigned? number = some form ∧
      ∀ buffer, write (.ofParts .typeRef 300) buffer = (.ok (), buffer ++ form.encode number)) ∧
    ∀ error stop, decode.run (.start [0x07]) = .error error stop → stop = .start [0x07] := by
  constructor
  · obtain ⟨number, _, hrun, _, _, _, _, _, _, form, hform, hwrite⟩ :=
      (write_and_decode.2 (.start [0x84, 0xB1, 0x00])).2.1 (.ofParts .typeRef 300) ⟨2, [0x00]⟩ rfl
    exact ⟨number, form, hrun, hform, hwrite⟩
  · intro error stop hrun
    exact ((write_and_decode.2 (.start [0x07])).2.2 error stop hrun).1

end CodedToken

end SignatureBlob
