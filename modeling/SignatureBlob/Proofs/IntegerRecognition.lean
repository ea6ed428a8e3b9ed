import SignatureBlob.Proofs.IntegerForms
import SignatureBlob.Proofs.IntegerReading

/-!
# Recognition of integers and tokens

The readers of compressed integers and coded tokens recognize their grammars, with every form that
is wide enough admitted.

Main statements: `CompressedInt.recognizes_decodeUnsigned`, `CompressedInt.recognizes_decodeSigned`
and `CodedToken.recognizes_decode`.
-/

namespace SignatureBlob

open Grammar

namespace Decoder

/-- As many bytes as are asked for are the value themselves. -/
theorem recognizes_bytes (count : Nat) :
    (bytes count).Recognizes fun value bytes => value.length = count ∧ bytes = value := by
  intro start value stop
  obtain ⟨place, ahead⟩ := start
  constructor
  · intro hrun
    by_cases hcount : count ≤ ahead.length
    · have htaken : (ahead.take count).length = count := List.length_take_of_le hcount
      have hread := run_bytes_append place (ahead.take count) (ahead.drop count)
      rw [List.take_append_drop, htaken, hrun] at hread
      obtain ⟨rfl, rfl⟩ := Outcome.ok.inj hread
      exact ⟨_, ⟨htaken, rfl⟩, (List.take_append_drop count ahead).symm, by rw [htaken]⟩
    · rw [run_bytes_of_lt (by omega)] at hrun
      cases hrun
  · rintro ⟨taken, ⟨rfl, rfl⟩, hahead, hposition⟩
    obtain ⟨place', ahead'⟩ := stop
    obtain rfl : ahead = taken ++ ahead' := hahead
    obtain rfl : place' = place + taken.length := hposition
    exact run_bytes_append place taken ahead'

end Decoder

namespace CompressedInt

open Decoder

/-- The payload of a form is read from the bytes of the form. -/
theorem recognizes_decodePayload :
    decodePayload.Recognizes fun result bytes =>
      result.2 < result.1.span ∧ bytes = result.1.encode result.2 := by
  -- the lead byte tells how many bytes are read, itself among them
  refine (recognizes_ask_bind fun offset => @recognizes_peek_bind _ _
    (fun lead (result : Form × Nat) bytes => Form.ofLead? lead = some result.1 ∧
      bytes.length = result.1.size ∧ result.2 = BigEndian.value bytes % result.1.span)
    (fun lead => ?_) ?_).congr ?_
  · cases hform : Form.ofLead? lead with
    | none =>
      simpa only [reduceCtorEq, false_and] using
        recognizes_refuse offset lead .integerLead
    | some form =>
      refine (recognizes_map (recognizes_bytes form.size) fun bytes =>
        (form, BigEndian.value bytes % form.span)).congr ?_
      rintro ⟨form', payload⟩ bytes
      constructor
      · rintro ⟨_, ⟨hlength, rfl⟩, hresult⟩
        obtain ⟨rfl, rfl⟩ := Prod.mk.inj hresult
        exact ⟨rfl, hlength, rfl⟩
      · rintro ⟨hsome, hlength, hpayload⟩
        obtain rfl := Option.some.inj hsome
        exact ⟨bytes, ⟨hlength, rfl⟩, Prod.ext rfl hpayload⟩
  · rintro lead ⟨form, payload⟩ ⟨_, hlength, _⟩
    exact absurd hlength (Nat.ne_of_lt form.size_pos)
  rintro ⟨form, payload⟩ bytes
  constructor
  · rintro ⟨lead, rest, ⟨hlead, hlength, hpayload⟩, rfl⟩
    dsimp only at hlead hlength hpayload
    subst hpayload
    exact ⟨Nat.mod_lt _ form.span_pos, (Form.encode_value_mod hlead hlength).symm⟩
  · rintro ⟨hpayload, rfl⟩
    obtain ⟨lead, rest, hcons, hlead⟩ := Form.exists_encode_eq_cons hpayload
    exact ⟨lead, rest, ⟨hlead, form.length_encode payload, (Form.value_encode_mod hpayload).symm⟩,
      hcons⟩

/-- To refuse null changes nothing, since its byte begins no form. -/
theorem recognizes_decodeForm :
    decodeForm.Recognizes fun result bytes =>
      result.2 < result.1.span ∧ bytes = result.1.encode result.2 := by
  have hnext : ∀ offset lead, (if lead = nullMarker then refuse offset lead .nullMarker
      else decodePayload).Recognizes fun result bytes =>
        ¬ lead = nullMarker ∧ result.2 < result.1.span ∧ bytes = result.1.encode result.2 :=
    fun offset lead =>
      recognizes_ite _ (recognizes_refuse offset lead .nullMarker) recognizes_decodePayload
  refine (recognizes_ask_bind fun offset => recognizes_peek_bind (hnext offset) ?_).congr ?_
  · rintro lead ⟨form, payload⟩ ⟨_, _, hbytes⟩
    exact form.encode_ne_nil payload hbytes.symm
  rintro ⟨form, payload⟩ bytes
  constructor
  · rintro ⟨lead, rest, ⟨_, hread⟩, _⟩
    exact hread
  · rintro ⟨hpayload, rfl⟩
    obtain ⟨lead, rest, hcons, hlead⟩ := Form.exists_encode_eq_cons hpayload
    refine ⟨lead, rest, ⟨?_, hpayload, rfl⟩, hcons⟩
    rintro rfl
    cases hlead

/-- An unsigned integer is read from each of its forms. -/
theorem recognizes_decodeUnsigned : decodeUnsigned.Recognizes (DerivesUnsigned .wideEnough) := by
  rw [decodeUnsigned_eq_map]
  refine (recognizes_map recognizes_decodeForm Prod.snd).congr ?_
  intro value bytes
  constructor
  · rintro ⟨⟨form, payload⟩, ⟨hpayload, rfl⟩, rfl⟩
    exact .intro hpayload trivial
  · rintro ⟨wide, _⟩
    exact ⟨⟨_, value⟩, ⟨wide, rfl⟩, rfl⟩

/-- A signed integer is read from each of its forms. -/
theorem recognizes_decodeSigned : decodeSigned.Recognizes (DerivesSigned .wideEnough) := by
  rw [decodeSigned_eq_map]
  refine (recognizes_map recognizes_decodeForm fun result => result.1.signed result.2).congr ?_
  intro value bytes
  constructor
  · rintro ⟨⟨form, payload⟩, ⟨hpayload, rfl⟩, rfl⟩
    have hderives : DerivesSigned .wideEnough (form.signed payload)
        (form.encode (form.payload (form.signed payload))) :=
      .intro (Form.reaches_signed hpayload) trivial
    rwa [Form.payload_signed hpayload] at hderives
  · rintro ⟨wide, _⟩
    exact ⟨⟨_, _⟩, ⟨Form.payload_lt wide, rfl⟩, (Form.signed_payload wide).symm⟩

end CompressedInt

namespace CodedToken

open Decoder CompressedInt

/-- The tag stands in the lowest bits. -/
theorem code_mod (table : TypeTable) (row : Nat) : code table row % 4 = tag table := by
  have htag := tag_lt table
  rw [code]
  omega

/-- The row stands above the tag. -/
theorem code_div (table : TypeTable) (row : Nat) : code table row / 4 = row := by
  have htag := tag_lt table
  rw [code]
  omega

/-- A token of 24 bits comes back from its number. -/
theorem ofCode_code {table : TypeTable} {row : Nat} (h : row < Token.rowLimit) :
    ofCode (code table row) = .ok (.ofParts table row) := by
  simp only [ofCode, code_mod, code_div, ofTag?_tag, if_pos h]

/-- No other tag tells the table. -/
theorem tag_of_ofTag? {number : Nat} {table : TypeTable} (h : ofTag? number = some table) :
    tag table = number := by
  unfold ofTag? at h
  split at h <;> cases h <;> rfl

/-- A number that stands for a token is that of a table and a row of 24 bits. -/
theorem exists_of_ofCode {number : Nat} {token : Token} (h : ofCode number = .ok token) :
    ∃ table row, row < Token.rowLimit ∧ number = code table row ∧ token = .ofParts table row := by
  unfold ofCode at h
  split at h
  · cases h
  · next table htable =>
    split at h
    · next hrow =>
      cases h
      refine ⟨table, number / 4, hrow, ?_, rfl⟩
      rw [code, tag_of_ofTag? htable]
      omega
    · cases h

/-- A token is read from each form of its number. -/
theorem recognizes_decode : CodedToken.decode.Recognizes (Derives .wideEnough) := by
  rw [decode_eq_transaction]
  refine recognizes_transaction ?_
  refine (@recognizes_located_bind _ _ _ _
    (fun number token bytes => ofCode number = .ok token ∧ bytes = []) _
    recognizes_decodeUnsigned (fun _ h => h.ne_nil rfl) fun offset lead number => ?_).congr ?_
  · dsimp only
    cases hcode : ofCode number with
    | ok token =>
      refine (recognizes_pure token).congr ?_
      intro value bytes
      rw [Except.ok.injEq, eq_comm]
    | error defect =>
      simpa only [reduceCtorEq, false_and] using recognizes_refuse offset lead defect
  intro token bytes
  constructor
  · rintro ⟨number, front, _, hnumber, ⟨hcode, rfl⟩, rfl⟩
    obtain ⟨table, row, hrow, rfl, rfl⟩ := exists_of_ofCode hcode
    rw [List.append_nil]
    exact .intro hrow hnumber
  · rintro ⟨narrow, coded⟩
    exact ⟨_, bytes, [], coded, ⟨ofCode_code narrow, rfl⟩, (List.append_nil bytes).symm⟩

end CodedToken

end SignatureBlob
