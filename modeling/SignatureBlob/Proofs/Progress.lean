import SignatureBlob.Proofs.Congruence

/-!
# Progress

No decoder goes back. It goes over some of the bytes ahead of it and stops behind them, also where
it fails, so a place in a blob is followed by a place in the blob.

Main statement: `Decoder.advances_subject`.
-/

namespace SignatureBlob

open Decoder

/-- To go over some bytes and then over others is to go over both. -/
theorem Cursor.Passes.trans {start middle stop : Cursor} {first second : List UInt8}
    (hfirst : start.Passes first middle) (hsecond : middle.Passes second stop) :
    start.Passes (first ++ second) stop :=
  Cursor.passes_append_iff.2 ⟨middle, hfirst, hsecond⟩

namespace Decoder

variable {α β : Type}

/-! ## Decoders that only go forward -/

/-- A decoder that goes over some of the bytes ahead, whether it succeeds or not. -/
def Advances (decoder : Decoder α) : Prop :=
  ∀ start : Cursor, ∃ bytes, start.Passes bytes (decoder.run start).stop

/-- What does not move goes over no bytes. -/
theorem advances_of_stop_eq {decoder : Decoder α} (h : ∀ start, (decoder.run start).stop = start) :
    decoder.Advances :=
  fun start => ⟨[], Cursor.passes_nil_iff.2 (h start)⟩

/-- A sequence goes forward if its parts do. -/
theorem advances_bind {first : Decoder α} {next : α → Decoder β} (hfirst : first.Advances)
    (hnext : ∀ value, (next value).Advances) : (first >>= next).Advances := by
  intro start
  obtain ⟨front, hfront⟩ := hfirst start
  cases hrun : first.run start with
  | ok value middle =>
    rw [hrun] at hfront
    obtain ⟨back, hback⟩ := hnext value middle
    rw [run_bind_ok hrun]
    exact ⟨front ++ back, hfront.trans hback⟩
  | error error middle =>
    rw [hrun] at hfront
    rw [run_bind_error hrun]
    exact ⟨front, hfront⟩

/-- To take bytes goes over them, or over none. -/
theorem advances_bytes (count : Nat) : (bytes count).Advances := by
  intro start
  cases hrun : (bytes count).run start with
  | ok value stop =>
    obtain ⟨bytes, -, hpasses⟩ := (recognizes_bytes count _ _ _).1 hrun
    exact ⟨bytes, hpasses⟩
  | error error stop => exact ⟨[], Cursor.passes_nil_iff.2 (of_run_bytes_eq_error hrun).2.1⟩

/-- A look does not move. -/
theorem advances_peek : peek.Advances := by
  refine advances_of_stop_eq fun start => ?_
  obtain ⟨place, ahead⟩ := start
  cases ahead <;> rfl

/-- To take a byte goes over it if there is one. -/
theorem advances_byte : byte.Advances := by
  intro start
  obtain ⟨place, ahead⟩ := start
  cases ahead with
  | nil => exact ⟨[], Cursor.passes_nil_iff.2 rfl⟩
  | cons next ahead => exact ⟨[next], rfl, rfl⟩

/-- To go back at an error is to go over nothing. -/
theorem advances_transaction {decoder : Decoder α} (h : decoder.Advances) :
    decoder.transaction.Advances := by
  intro start
  cases hrun : decoder.run start with
  | ok value stop =>
    obtain ⟨bytes, hbytes⟩ := h start
    rw [hrun] at hbytes
    rw [run_transaction_eq_ok_iff.2 hrun]
    exact ⟨bytes, hbytes⟩
  | error error stop =>
    rw [run_transaction_of_error hrun]
    exact ⟨[], Cursor.passes_nil_iff.2 rfl⟩

/-- Decoders that go forward still do in all the ways in which readers are put together. -/
theorem congruence_advances : Congruence fun _ decoder _ => decoder.Advances :=
  Closed.congruence {
    pure := fun _ => advances_of_stop_eq fun _ => rfl
    bind := advances_bind
    position := advances_of_stop_eq fun _ => rfl
    peek := advances_peek
    byte := advances_byte
    bytes := advances_bytes
    fail := fun _ => advances_of_stop_eq fun _ => rfl
    transaction := advances_transaction }

/-! ## Types and signatures -/

/-- The guard of the limit stays where it is. -/
theorem advances_guard (limit : Nat) : (TypeSig.decodeWithin limit 0).Advances :=
  advances_of_stop_eq fun _ => rfl

/-- The reader of types goes forward. -/
theorem advances_decodeWithin (limit levels : Nat) :
    (TypeSig.decodeWithin limit levels).Advances :=
  congruence_advances.compatible.decodeWithin limit limit (fun _ => advances_guard limit)
    (Nat.le_refl levels)

/-- The check at the end does not move. -/
theorem advances_finish (options : DecodeOptions) : (finish options).Advances := by
  refine advances_of_stop_eq fun start => ?_
  cases hrun : (finish options).run start with
  | ok _ stop => exact (run_finish_eq_ok_iff.1 hrun).1
  | error error stop => exact (eq_of_run_finish_eq_error hrun).1

/-- Every reader goes forward, whether it succeeds or fails. -/
theorem advances_subject (options : DecodeOptions) (kind : SubjectKind) :
    (Subject.decode options kind).Advances :=
  congruence_advances.compatible.subject (fun _ => advances_guard _) (advances_finish options)
    (Nat.le_refl options.limit) kind

end Decoder

end SignatureBlob
