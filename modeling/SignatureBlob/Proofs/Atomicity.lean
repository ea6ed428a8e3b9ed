import SignatureBlob.Proofs.IntegerReading

/-!
# All or nothing

A number is read whole or not at all. The length is known from a look at the first byte, and then
the bytes are taken at one go; so where they are too few, or the first one begins no number, the
cursor is still in front of them.

Main definition: `Decoder.Atomic`. Main statement: `CompressedInt.atomic_decodeForm`.
-/

namespace SignatureBlob

namespace Decoder

variable {α β : Type}

/-- A decoder that has not moved where it fails. -/
def Atomic (decoder : Decoder α) : Prop :=
  ∀ start error stop, decoder.run start = .error error stop → stop = start

/-- A failure does not move. -/
theorem atomic_fail (error : Error) : (fail error : Decoder α).Atomic := by
  intro start cause stop hrun
  exact (Outcome.error.inj hrun).2.symm

/-- Bytes are taken at one go or not at all. -/
theorem atomic_bytes (count : Nat) : (bytes count).Atomic := by
  intro start error stop hrun
  exact (of_run_bytes_eq_error hrun).2.1

/-- A value that is read last may be wrapped. -/
theorem atomic_map {decoder : Decoder α} (h : decoder.Atomic) (f : α → β) :
    (decoder >>= fun value => pure (f value)).Atomic := by
  intro start error stop hrun
  rcases run_bind_eq_error_iff.1 hrun with hstop | ⟨value, middle, -, hpure⟩
  · exact h start error stop hstop
  · cases hpure

/-- A look at the next byte moves nothing. -/
theorem atomic_look {next : Nat → UInt8 → Decoder α}
    (h : ∀ offset lead, (next offset lead).Atomic) :
    (position >>= fun offset => peek >>= next offset).Atomic := by
  rintro ⟨place, ahead⟩ error stop hrun
  rw [run_bind_ok (run_position _)] at hrun
  cases ahead with
  | nil =>
    rw [run_bind_error (run_peek_nil place)] at hrun
    exact (Outcome.error.inj hrun).2.symm
  | cons lead ahead =>
    rw [run_bind_ok (run_peek_cons place lead ahead)] at hrun
    exact h place lead _ error stop hrun

end Decoder

open Decoder

namespace CompressedInt

/-- A payload is looked at before its bytes are taken at one go. -/
theorem atomic_decodePayload : decodePayload.Atomic := by
  refine atomic_look fun offset lead => ?_
  cases Form.ofLead? lead with
  | none => exact atomic_fail _
  | some form => exact atomic_map (atomic_bytes form.size) _

/-- A payload that is not null is looked at before its bytes are taken at one go. -/
theorem atomic_decodeForm : decodeForm.Atomic := by
  refine atomic_look fun offset lead => ?_
  split
  · exact atomic_fail _
  · exact atomic_decodePayload

/-- An unsigned integer is read whole or not at all. -/
theorem atomic_decodeUnsigned : decodeUnsigned.Atomic := by
  rw [decodeUnsigned_eq_map]
  exact atomic_map atomic_decodeForm Prod.snd

/-- A signed integer is read whole or not at all. -/
theorem atomic_decodeSigned : decodeSigned.Atomic := by
  rw [decodeSigned_eq_map]
  exact atomic_map atomic_decodeForm _

end CompressedInt

end SignatureBlob
