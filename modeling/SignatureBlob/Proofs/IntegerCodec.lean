import SignatureBlob.Buffer
import SignatureBlob.Proofs.Atomicity
import SignatureBlob.Proofs.IntegerRecognition
import SignatureBlob.Proofs.IntegerWords

/-!
# Integers written and read

What is written is read back, and what is read is written back unless it was not in its shortest
form. Between the two stands the form: the writer takes the shortest one for the value, and the
reader takes the one that the first byte tells, whose bytes need only be there.

Main statements: `CompressedInt.writeUnsigned_and_decodeUnsigned` and
`CompressedInt.writeSigned_and_decodeSigned`.
-/

namespace SignatureBlob

namespace Decoder

variable {α β : Type} {decoder : Decoder α} {f : α → β} {start stop : Cursor}

/-- What is made of a value fails exactly where the value does. -/
theorem run_map_eq_error_iff {error : Error} :
    (f <$> decoder).run start = .error error stop ↔ decoder.run start = .error error stop := by
  rw [run_map]
  cases decoder.run start with
  | ok value place => exact iff_of_false nofun nofun
  | error cause place => rw [Outcome.map, Outcome.error.injEq, Outcome.error.injEq]

/-- Whatever is made of a value, it is read where the value is. -/
theorem exists_run_map_iff :
    (∃ value stop, (f <$> decoder).run start = .ok value stop) ↔
      ∃ value stop, decoder.run start = .ok value stop := by
  rw [run_map]
  cases decoder.run start with
  | ok value stop => exact iff_of_true ⟨_, _, rfl⟩ ⟨_, _, rfl⟩
  | error cause stop => exact iff_of_false nofun nofun

end Decoder

namespace CompressedInt

open Decoder

/-! ## The form that a first byte tells -/

namespace Form

/-- A byte tells a form exactly if it is below 0xE0. -/
theorem isSome_ofLead?_iff {lead : UInt8} : (ofLead? lead).isSome = true ↔ lead < 0xE0 := by
  have hlt : lead < 0xE0 ↔ lead.toNat < 0xE0 := UInt8.lt_iff_toNat_lt
  rw [hlt, ofLead?]
  split
  · exact iff_of_true rfl (by omega)
  · split
    · exact iff_of_true rfl (by omega)
    · split
      · exact iff_of_true rfl (by omega)
      · exact iff_of_false Bool.false_ne_true (by omega)

/-- The size of a form is told by its first byte. -/
theorem size_of_ofLead? {form : Form} {lead : UInt8} (h : ofLead? lead = some form) :
    form.size = if lead < 0x80 then 1 else if lead < 0xC0 then 2 else 4 := by
  have hone : lead < 0x80 ↔ lead.toNat < 0x80 := UInt8.lt_iff_toNat_lt
  have htwo : lead < 0xC0 ↔ lead.toNat < 0xC0 := UInt8.lt_iff_toNat_lt
  simp only [ofLead?] at h
  simp only [hone, htwo]
  split at h
  · obtain rfl := Option.some.inj h
    rw [if_pos ‹_›]
    rfl
  · rw [if_neg ‹_›]
    split at h
    · obtain rfl := Option.some.inj h
      rw [if_pos ‹_›]
      rfl
    · rw [if_neg ‹_›]
      split at h
      · obtain rfl := Option.some.inj h
        rfl
      · cases h

end Form

/-! ## Reading -/

/-- A number is read exactly where the bytes that its first byte tells are there. -/
theorem exists_run_decodeForm_iff {start : Cursor} :
    (∃ result stop, decodeForm.run start = .ok result stop) ↔
      ∃ lead, start.ahead.head? = some lead ∧ lead < 0xE0 ∧
        (if lead < 0x80 then 1 else if lead < 0xC0 then 2 else 4) ≤ start.remaining := by
  constructor
  · rintro ⟨⟨form, payload⟩, stop, hrun⟩
    obtain ⟨_, ⟨hpayload, rfl⟩, hahead, -⟩ := (recognizes_decodeForm _ _ _).1 hrun
    obtain ⟨lead, rest, hencode, hlead⟩ := Form.exists_encode_eq_cons hpayload
    refine ⟨lead, ?_, Form.isSome_ofLead?_iff.1 (Option.isSome_of_eq_some hlead), ?_⟩
    · rw [hahead, hencode]
      rfl
    · rw [← Form.size_of_ofLead? hlead, Cursor.remaining, hahead, List.length_append,
        Form.length_encode]
      exact Nat.le_add_right _ _
  · rintro ⟨lead, hhead, hlt, hsize⟩
    obtain ⟨place, ahead⟩ := start
    obtain ⟨form, hlead⟩ := Option.isSome_iff_exists.1 (Form.isSome_ofLead?_iff.2 hlt)
    rw [← Form.size_of_ofLead? hlead] at hsize
    -- the bytes that are there are those of a payload of the form
    have htaken : (ahead.take form.size).length = form.size := List.length_take_of_le hsize
    obtain ⟨rest, hrest⟩ : ∃ rest, ahead.take form.size = lead :: rest := by
      obtain - | ⟨byte, ahead⟩ := ahead
      · cases hhead
      · obtain rfl := Option.some.inj hhead
        obtain ⟨size, hform⟩ := Nat.exists_eq_succ_of_ne_zero (Nat.ne_of_gt form.size_pos)
        exact ⟨ahead.take size, by rw [hform, List.take_succ_cons]⟩
    rw [hrest] at htaken
    have hpayload : BigEndian.value (lead :: rest) % form.span < form.span :=
      Nat.mod_lt _ form.span_pos
    refine ⟨(form, _), ⟨place + form.size, ahead.drop form.size⟩, (recognizes_decodeForm _ _ _).2
      ⟨_, ⟨hpayload, rfl⟩, ?_, ?_⟩⟩
    · rw [Form.encode_value_mod hlead htaken, ← hrest, List.take_append_drop]
    · rw [Form.length_encode]

/-- Away from the null marker null makes no difference. -/
theorem run_decodeUnsigned?_of_ne {start : Cursor} (h : start.ahead.head? ≠ some nullMarker) :
    decodeUnsigned?.run start = (decodeUnsigned.run start).map some := by
  obtain ⟨place, _ | ⟨lead, ahead⟩⟩ := start
  · rfl
  · have hlead : lead ≠ nullMarker := fun hnull => h (congrArg some hnull)
    rw [← run_map]
    -- what is behind the look at the first byte
    show (if lead = nullMarker then _ else _ : Decoder (Option Nat)).run _ =
      ((if lead = nullMarker then _ else _ : Decoder Nat) >>= _).run _
    rw [if_neg hlead, if_neg hlead]
    rfl

/-! ## Writing -/

/-- A form is told by its size. -/
theorem Form.size_inj {form other : Form} : form.size = other.size ↔ form = other := by
  cases form <;> cases other <;> decide

/-- The shortest form takes no more bytes than another. -/
theorem Form.size_le_of_shorter {form best : Form} (h : best = form ∨ best.size < form.size) :
    best.size ≤ form.size := by
  rcases h with rfl | hlt
  · exact Nat.le_refl _
  · exact Nat.le_of_lt hlt

/-- What is written in the form `best` are the bytes of another form only if that is as short. -/
theorem size_eq_iff_written {write : Write Unit} {bytes : Form → List UInt8} {best : Form}
    (hlength : ∀ form, (bytes form).length = form.size)
    (hwrite : ∀ buffer, write buffer = (.ok (), buffer ++ bytes best)) (form : Form) :
    best.size = form.size ↔ ∀ buffer, write buffer = (.ok (), buffer ++ bytes form) := by
  constructor
  · intro hsize
    rwa [Form.size_inj.1 hsize] at hwrite
  · intro hform
    have hbytes : bytes best = bytes form := congrArg Prod.snd ((hwrite []).symm.trans (hform []))
    rw [← hlength best, hbytes, hlength]

/-! ## Unsigned integers -/

/-- An unsigned integer has a size exactly if it is no larger than the largest. -/
theorem isSome_unsignedSize?_iff {value : Nat} :
    (unsignedSize? value).isSome = true ↔ value ≤ maxUnsigned := by
  rw [unsignedSize?, Option.isSome_map]
  constructor
  · intro h
    obtain ⟨form, hform⟩ := Option.isSome_iff_exists.1 h
    have hlt := Nat.lt_of_lt_of_le (Form.lt_span_of_forUnsigned? hform) form.span_le_four
    exact Nat.le_of_lt_succ hlt
  · intro h
    have hlt : value < Form.four.span := Nat.lt_succ_of_le h
    obtain ⟨best, hbest, -⟩ := Form.exists_forUnsigned? hlt
    exact Option.isSome_of_eq_some hbest

/-- The bytes of the shortest form are put behind those that are there. -/
theorem writeUnsigned_of_form {form : Form} {value : Nat}
    (h : Form.forUnsigned? value = some form) (buffer : List UInt8) :
    writeUnsigned value buffer = (.ok (), buffer ++ form.encode value) := by
  rw [writeUnsigned, putUnsigned, h]
  rfl

/-- An integer without a form is refused at the end of the buffer. -/
theorem writeUnsigned_of_none {value : Nat} (h : Form.forUnsigned? value = none)
    (buffer : List UInt8) :
    writeUnsigned value buffer = (.error (.invalidEncoding buffer.length
      (UInt8.ofNat (value / 0x1000000)) (.unsignedRange value)), buffer) := by
  rw [writeUnsigned, putUnsigned, h]
  rfl

/-- An unsigned integer is read from its bytes, wherever they stand. -/
theorem run_decodeUnsigned_encode {form : Form} {value : Nat} (h : value < form.span)
    (buffer ahead : List UInt8) :
    decodeUnsigned.run ⟨buffer.length, (buffer ++ form.encode value ++ ahead).drop buffer.length⟩ =
      .ok value ⟨buffer.length + form.size, ahead⟩ := by
  rw [List.append_assoc, List.drop_left]
  exact (recognizes_decodeUnsigned _ _ _).2
    ⟨_, .intro h trivial, rfl, by rw [Form.length_encode]⟩

/-- Unsigned integers are written in their shortest form, if they have any, and read back; the size
says how long that form is. They are read from every form, but it is only the shortest that would be
written. Where null may stand they are read in the same way. -/
theorem writeUnsigned_and_decodeUnsigned :
    (∀ (value : Nat) (buffer : List UInt8),
      (value ≤ 0x1FFFFFFF ↔ (unsignedSize? value).isSome = true) ∧
      match unsignedSize? value with
      | some size => ∃ lead rest, (lead :: rest).length = size ∧
          (Form.ofLead? lead).map Form.size = some size ∧
          writeUnsigned value buffer = (.ok (), buffer ++ lead :: rest) ∧
          ∀ ahead, decodeUnsigned.run
              ⟨buffer.length, (buffer ++ lead :: rest ++ ahead).drop buffer.length⟩ =
            .ok value ⟨buffer.length + size, ahead⟩
      | none => writeUnsigned value buffer = (.error (.invalidEncoding buffer.length
          (UInt8.ofNat (value / 0x1000000)) (.unsignedRange value)), buffer)) ∧
    ∀ start : Cursor,
      ((∃ value stop, decodeUnsigned.run start = .ok value stop) ↔
        ∃ lead, start.ahead.head? = some lead ∧ lead < 0xE0 ∧
          (if lead < 0x80 then 1 else if lead < 0xC0 then 2 else 4) ≤ start.remaining) ∧
      (∀ value stop, decodeUnsigned.run start = .ok value stop →
        value ≤ 0x1FFFFFFF ∧ ∃ bytes size, start.Passes bytes stop ∧
          unsignedSize? value = some size ∧ size ≤ bytes.length ∧
          (size = bytes.length ↔
            ∀ buffer, writeUnsigned value buffer = (.ok (), buffer ++ bytes))) ∧
      (∀ error stop, decodeUnsigned.run start = .error error stop → stop = start) ∧
      (start.ahead.head? ≠ some 0xFF →
        decodeUnsigned?.run start = (decodeUnsigned.run start).map some) ∧
      ∀ ahead, start.ahead = 0xFF :: ahead →
        decodeUnsigned?.run start = .ok none ⟨start.position + 1, ahead⟩ := by
  refine ⟨fun value buffer => ⟨isSome_unsignedSize?_iff.symm, ?_⟩,
    fun start => ⟨?_, ?_, ?_, ?_, ?_⟩⟩
  · cases hform : Form.forUnsigned? value with
    | some form =>
      have hwide := Form.lt_span_of_forUnsigned? hform
      obtain ⟨lead, rest, hencode, hlead⟩ := Form.exists_encode_eq_cons hwide
      have hlength := form.length_encode value
      have hwrite := writeUnsigned_of_form hform buffer
      have hread := run_decodeUnsigned_encode hwide buffer
      rw [hencode] at hlength hwrite hread
      rw [unsignedSize?, hform]
      exact ⟨lead, rest, hlength, by rw [hlead]; rfl, hwrite, hread⟩
    | none =>
      rw [unsignedSize?, hform]
      exact writeUnsigned_of_none hform buffer
  · rw [← exists_run_decodeForm_iff, decodeUnsigned_eq_map, exists_run_map_iff]
  · intro value stop hrun
    obtain ⟨_, @⟨form, _, hwide, -⟩, hpasses⟩ := (recognizes_decodeUnsigned _ _ _).1 hrun
    obtain ⟨best, hbest, hshorter⟩ := Form.exists_forUnsigned? hwide
    have hsize : unsignedSize? value = some best.size := by rw [unsignedSize?, hbest]; rfl
    refine ⟨isSome_unsignedSize?_iff.1 (Option.isSome_of_eq_some hsize), _, _, hpasses, hsize, ?_⟩
    rw [Form.length_encode]
    exact ⟨Form.size_le_of_shorter hshorter, size_eq_iff_written
      (fun form => form.length_encode value) (writeUnsigned_of_form hbest) form⟩
  · exact atomic_decodeUnsigned start
  · exact run_decodeUnsigned?_of_ne
  · intro ahead hahead
    obtain ⟨place, _⟩ := start
    obtain rfl := hahead
    rfl

/-! ## Signed integers -/

/-- A form reaches the integers of one bit less than its payload, with their sign. -/
theorem Form.reaches_iff {form : Form} {value : Int} :
    form.Reaches value ↔
      -2 ^ (form.width - 1) ≤ value ∧ value < 2 ^ (form.width - 1) := by
  cases form <;> exact Iff.rfl

/-- The bytes of the shortest form are put behind those that are there. -/
theorem writeSigned_of_form {form : Form} {value : Int} (h : Form.forSigned? value = some form)
    (buffer : List UInt8) :
    writeSigned value buffer = (.ok (), buffer ++ form.encode (form.payload value)) := by
  rw [writeSigned, putSigned, h]
  rfl

/-- An integer without a form is refused at the end of the buffer. -/
theorem writeSigned_of_none {value : Int} (h : Form.forSigned? value = none)
    (buffer : List UInt8) :
    writeSigned value buffer = (.error (.invalidEncoding buffer.length
      (UInt8.ofInt (value / 0x1000000)) (.signedRange value)), buffer) := by
  rw [writeSigned, putSigned, h]
  rfl

/-- A signed integer is read from its bytes, wherever they stand. -/
theorem run_decodeSigned_encode {form : Form} {value : Int} (h : form.Reaches value)
    (buffer ahead : List UInt8) :
    decodeSigned.run ⟨buffer.length,
        (buffer ++ form.encode (form.payload value) ++ ahead).drop buffer.length⟩ =
      .ok value ⟨buffer.length + (form.encode (form.payload value)).length, ahead⟩ := by
  rw [List.append_assoc, List.drop_left]
  exact (recognizes_decodeSigned _ _ _).2 ⟨_, .intro h trivial, rfl, rfl⟩

/-- A signed integer has a form exactly if 29 bits hold it. -/
theorem isSome_forSigned?_iff {value : Int} :
    (Form.forSigned? value).isSome = true ↔ -2 ^ 28 ≤ value ∧ value ≤ 2 ^ 28 - 1 := by
  have hfour : Form.four.Reaches value ↔ -2 ^ 28 ≤ value ∧ value ≤ 2 ^ 28 - 1 := by
    rw [Form.reaches_iff, Int.le_sub_one_iff]
    exact Iff.rfl
  rw [← hfour]
  constructor
  · intro h
    obtain ⟨form, hform⟩ := Option.isSome_iff_exists.1 h
    exact (Form.reaches_of_forSigned? hform).four
  · intro h
    obtain ⟨best, hbest, -⟩ := Form.exists_forSigned? h
    exact Option.isSome_of_eq_some hbest

/-- Signed integers are written in their shortest form, if they have any, and read back. They are
read from every form, as the payload rotated right with the sign on top, and it is only the shortest
that would be written. They cannot be read only where no number can. Words of 32 bits are wide
enough for all of this. -/
theorem writeSigned_and_decodeSigned :
    (∀ (value : Int32) (buffer : List UInt8),
      if -2 ^ 28 ≤ value.toInt ∧ value.toInt ≤ 2 ^ 28 - 1 then
        ∃ form bytes, Form.forSigned? value.toInt = some form ∧ form.WritesExactly value ∧
          bytes = form.bytesOfWord (form.rotatedWord value) ∧
          writeSigned value.toInt buffer = (.ok (), buffer ++ bytes) ∧
          ∀ ahead, decodeSigned.run
              ⟨buffer.length, (buffer ++ bytes ++ ahead).drop buffer.length⟩ =
            .ok value.toInt ⟨buffer.length + bytes.length, ahead⟩
      else writeSigned value.toInt buffer = (.error (.invalidEncoding buffer.length
        (UInt8.ofInt (value.toInt / 0x1000000)) (.signedRange value.toInt)), buffer)) ∧
    ∀ start : Cursor,
      (∀ value stop, decodeSigned.run start = .ok value stop →
        ∃ form lead rest written, start.Passes (lead :: rest) stop ∧
          Form.ofLead? lead = some form ∧ (lead :: rest).length = form.size ∧
          value = ((BitVec.ofNat form.width (BigEndian.value (lead :: rest))).rotateRight 1).toInt ∧
          -2 ^ (form.width - 1) ≤ value ∧ value < 2 ^ (form.width - 1) ∧
          form.ReadsExactly (lead :: rest) ∧
          (form.signedWord (form.payloadWord (lead :: rest))).toInt = value ∧
          (∀ buffer, writeSigned value buffer = (.ok (), buffer ++ written)) ∧
          written.length ≤ (lead :: rest).length ∧
          (written.length = (lead :: rest).length → written = lead :: rest)) ∧
      ∀ error stop,
        (decodeSigned.run start = .error error stop ↔
          decodeUnsigned.run start = .error error stop) ∧
        (decodeSigned.run start = .error error stop → stop = start) := by
  refine ⟨fun value buffer => ?_, fun start => ⟨?_, fun error stop => ⟨?_, ?_⟩⟩⟩
  · split
    next hrange =>
      obtain ⟨form, hform⟩ := Option.isSome_iff_exists.1 (isSome_forSigned?_iff.2 hrange)
      have hwide := Form.reaches_of_forSigned? hform
      have hwords := Form.writesExactly hwide
      exact ⟨form, _, hform, hwords, hwords.result.symm, writeSigned_of_form hform buffer,
        run_decodeSigned_encode hwide buffer⟩
    next hrange =>
      have hnone := Option.not_isSome_iff_eq_none.1 (mt isSome_forSigned?_iff.1 hrange)
      exact writeSigned_of_none hnone buffer
  · intro value stop hrun
    obtain ⟨bytes, @⟨form, _, hwide, -⟩, hpasses⟩ := (recognizes_decodeSigned _ _ _).1 hrun
    obtain ⟨best, hbest, hshorter⟩ := Form.exists_forSigned? hwide
    have hpayload := Form.payload_lt hwide
    obtain ⟨lead, rest, hencode, hlead⟩ := Form.exists_encode_eq_cons hpayload
    have hlength := form.length_encode (form.payload value)
    have hsigned : form.signed (BigEndian.value (lead :: rest) % form.span) = value := by
      rw [← hencode, Form.value_encode_mod hpayload, Form.signed_payload hwide]
    rw [hencode] at hpasses hlength
    have hwords := Form.readsExactly hlength
    obtain ⟨hlow, hhigh⟩ := Form.reaches_iff.1 hwide
    refine ⟨form, lead, rest, _, hpasses, hlead, hlength, ?_, hlow, hhigh, hwords,
      hwords.result.trans hsigned, writeSigned_of_form hbest, ?_, ?_⟩
    · rw [← Form.signed_mod_eq_toInt_rotateRight, hsigned]
    · rw [hlength, Form.length_encode]
      exact Form.size_le_of_shorter hshorter
    · rw [hlength, Form.length_encode, Form.size_inj, ← hencode]
      rintro rfl
      rfl
  · rw [decodeSigned_eq_map, decodeUnsigned_eq_map, run_map_eq_error_iff, run_map_eq_error_iff]
  · exact atomic_decodeSigned start error stop

/-- The same bits are another integer in a wider form. -/
example : decodeSigned.run ⟨0, [0x7B]⟩ = .ok (-3) ⟨1, []⟩ ∧
    decodeSigned.run ⟨0, [0x80, 0x7B]⟩ = .ok (-8131) ⟨2, []⟩ := by decide

end CompressedInt

end SignatureBlob
