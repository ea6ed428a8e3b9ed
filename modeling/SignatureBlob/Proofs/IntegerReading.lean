import SignatureBlob.CodedToken
import SignatureBlob.Proofs.Recognition

/-!
# Payloads with their forms

What is read for an integer is a payload, and a signed integer needs its form as well. For proofs
both are read at once, and every reader of integers is a map of that. A coded token is a number with
the place where it began.

Main definition: `CompressedInt.decodeForm`. Main statements: `CompressedInt.decodeUnsigned_eq_map`
and `CompressedInt.decodeSigned_eq_map`.
-/

namespace SignatureBlob

open Decoder

/-- A look at the next byte moves nothing, so there is nothing to undo but what comes behind it. -/
theorem Decoder.transaction_look {α : Type} (next : Nat → UInt8 → Decoder α) :
    (position >>= fun offset => peek >>= next offset).transaction =
      position >>= fun offset => peek >>= fun lead => (next offset lead).transaction := by
  apply ext
  rintro ⟨place, _ | ⟨lead, ahead⟩⟩
  · rfl
  · rfl

namespace CompressedInt

/-- A payload and its form, where the next byte is not the null marker. -/
def decodePayload : Decoder (Form × Nat) := do
  let offset ← .position
  let lead ← .peek
  match Form.ofLead? lead with
  | none => .refuse offset lead .integerLead
  | some form =>
    let bytes ← .bytes form.size
    return (form, BigEndian.value bytes % form.span)

/-- A payload and its form; null is refused. -/
def decodeForm : Decoder (Form × Nat) := do
  let offset ← .position
  let lead ← .peek
  if lead = nullMarker then .refuse offset lead .nullMarker
  else decodePayload

variable {place : Nat} {lead : UInt8} {ahead : List UInt8}

/-- A byte that tells no form is refused. -/
theorem run_decodePayload_of_none (h : Form.ofLead? lead = none) :
    decodePayload.run ⟨place, lead :: ahead⟩ =
      .error (.invalidEncoding place lead .integerLead) ⟨place, lead :: ahead⟩ := by
  rw [decodePayload, run_bind_ok (run_position _), run_bind_ok (run_peek_cons _ _ _), h]
  rfl

/-- A byte that tells a form is the first of the bytes that are taken. -/
theorem run_decodePayload_of_some {form : Form} (h : Form.ofLead? lead = some form) :
    decodePayload.run ⟨place, lead :: ahead⟩ =
      ((bytes form.size).run ⟨place, lead :: ahead⟩).map
        fun bytes => (form, BigEndian.value bytes % form.span) := by
  rw [decodePayload, run_bind_ok (run_position _), run_bind_ok (run_peek_cons _ _ _), h,
    ← run_map]
  rfl

/-- Away from the null marker it makes no difference that null is refused. -/
theorem run_decodeForm_of_ne (h : lead ≠ nullMarker) :
    decodeForm.run ⟨place, lead :: ahead⟩ = decodePayload.run ⟨place, lead :: ahead⟩ := by
  rw [decodeForm, run_bind_ok (run_position _), run_bind_ok (run_peek_cons _ _ _), if_neg h]

/-- The form that is read is the one that the first byte tells. -/
theorem ofLead?_of_run_decodeForm {result : Form × Nat} {stop : Cursor}
    (h : decodeForm.run ⟨place, lead :: ahead⟩ = .ok result stop) :
    Form.ofLead? lead = some result.1 := by
  by_cases hnull : lead = nullMarker
  · subst hnull
    cases h
  · rw [run_decodeForm_of_ne hnull] at h
    cases hform : Form.ofLead? lead with
    | none => cases (run_decodePayload_of_none hform).symm.trans h
    | some form =>
      rw [run_decodePayload_of_some hform] at h
      cases hbytes : (bytes form.size).run ⟨place, lead :: ahead⟩ with
      | error error middle => rw [hbytes] at h; cases h
      | ok bytes middle =>
        rw [hbytes] at h
        obtain ⟨rfl, -⟩ := Outcome.ok.inj h
        rfl

/-- A payload is read as one with its form, which is left out. -/
theorem readPayload_eq_map : (readPayload : Decoder Nat) = Prod.snd <$> decodePayload := by
  rw [decodePayload, map_bind]
  refine bind_congr fun offset => ?_
  rw [map_bind]
  refine bind_congr fun lead => ?_
  cases Form.ofLead? lead with
  | none => rfl
  | some form => rw [map_bind]; rfl

/-- An unsigned integer is its payload. -/
theorem decodeUnsigned_eq_map : decodeUnsigned = Prod.snd <$> decodeForm := by
  rw [decodeForm, map_bind]
  refine bind_congr fun offset => ?_
  rw [map_bind]
  refine bind_congr fun lead => ?_
  split
  · next hnull =>
    subst hnull
    rfl
  · exact readPayload_eq_map

/-- The form that is read is the one that the first byte tells. -/
theorem decodeSigned_eq_map :
    decodeSigned = (fun result => result.1.signed result.2) <$> decodeForm := by
  apply ext
  rintro ⟨place, _ | ⟨lead, ahead⟩⟩
  · rfl
  · have hsigned : decodeSigned = peek >>= fun lead => decodeUnsigned >>= fun payload =>
        pure (((Form.ofLead? lead).getD .four).signed payload) := rfl
    rw [hsigned, run_bind_ok (run_peek_cons _ _ _), decodeUnsigned_eq_map, bind_map_left, run_map]
    cases hrun : decodeForm.run ⟨place, lead :: ahead⟩ with
    | error error stop => rw [run_bind_error hrun]; rfl
    | ok result stop => rw [run_bind_ok hrun, ofLead?_of_run_decodeForm hrun]; rfl

end CompressedInt

namespace CodedToken

/-- The place of a number and its first byte are told by a look at it. -/
theorem decode_eq_transaction :
    decode = Decoder.transaction (CompressedInt.decodeUnsigned.located >>= fun code =>
      match ofCode code.value with
      | .ok token => pure token
      | .error defect => .refuse code.offset code.lead defect) := by
  rw [located_bind_eq, transaction_look]
  rfl

end CodedToken

end SignatureBlob
