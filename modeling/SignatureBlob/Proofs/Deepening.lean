import SignatureBlob.Proofs.Progress

/-!
# More levels

A run with few levels and a run with more of them from the same place go together until the guard
trips in the one with few. So they have the same outcome, or that one fails over some type, and the
other, if it comes to an end, has read this type there.

Main statements: `TypeSig.agrees_decodeWithin` and `Subject.agrees_decode`.
-/

namespace SignatureBlob

open Grammar Decoder

/-- How the outcome with few levels compares with the outcome `deep` with more. -/
inductive Outcome.Shallow {α : Type} (limit : Nat) (deep : Outcome α) : Outcome α → Prop
  | same : Shallow limit deep deep
  /-- The guard trips over a type that `deep` has read if it is a success. -/
  | trips {place : Cursor}
      (read : ∀ value stop, deep = .ok value stop →
        ∃ (type : TypeSig) (bytes : List UInt8) (behind : Cursor), type.Derives .wideEnough bytes ∧
          place.Passes bytes behind ∧ behind.position ≤ stop.position) :
      Shallow limit deep (.error (.maxDepthExceeded limit place.position) place)

namespace Decoder

variable {α β : Type} {limit : Nat}

/-- With few levels, out of the limit, the guard may trip in `decoder`; but else it does what `deep`
does with more. -/
def Agrees (limit : Nat) (decoder deep : Decoder α) : Prop :=
  ∀ start, Outcome.Shallow limit (deep.run start) (decoder.run start)

/-- What does not depend on the levels agrees with itself. -/
theorem agrees_self (decoder : Decoder α) : Agrees limit decoder decoder := fun _ => .same

/-- Sequences agree if their parts do, as what comes behind goes forward. -/
theorem agrees_bind {first deep : Decoder α} {next deepNext : α → Decoder β}
    (hfirst : Agrees limit first deep) (hnext : ∀ value, Agrees limit (next value) (deepNext value))
    (hadvances : ∀ value, (deepNext value).Advances) :
    Agrees limit (first >>= next) (deep >>= deepNext) := by
  intro start
  have hshallow := hfirst start
  generalize hrun : first.run start = outcome at hshallow
  cases hshallow with
  | same =>
    cases hdeep : deep.run start with
    | ok value middle =>
      rw [run_bind_ok hdeep, run_bind_ok (hrun.trans hdeep)]
      exact hnext value middle
    | error error middle =>
      rw [run_bind_error hdeep, run_bind_error (hrun.trans hdeep)]
      exact .same
  | trips read =>
    rw [run_bind_error hrun]
    refine .trips fun result stop hresult => ?_
    obtain ⟨value, middle, hvalue, hrest⟩ := run_bind_eq_ok_iff.1 hresult
    obtain ⟨type, bytes, behind, htype, hbytes, hle⟩ := read value middle hvalue
    obtain ⟨more, hmore⟩ := hadvances value middle
    rw [hrest] at hmore
    exact ⟨type, bytes, behind, htype, hbytes,
      Nat.le_trans hle (hmore.2 ▸ Nat.le_add_right _ _)⟩

/-- The deep one of two decoders that agree also goes forward over the bytes. -/
theorem congruence_agrees (limit : Nat) : Congruence fun _ decoder deep =>
    Agrees limit decoder deep ∧ deep.Advances :=
  Closed.congruence {
    pure := fun value => ⟨agrees_self _, congruence_advances.pure value⟩
    bind := fun hfirst hnext => ⟨agrees_bind hfirst.1 (fun value => (hnext value).1)
      fun value => (hnext value).2, advances_bind hfirst.2 fun value => (hnext value).2⟩
    position := ⟨agrees_self _, advances_of_stop_eq fun _ => rfl⟩
    peek := ⟨agrees_self _, advances_peek⟩
    byte := ⟨agrees_self _, advances_byte⟩
    bytes := fun count => ⟨agrees_self _, advances_bytes count⟩
    fail := fun _ => ⟨agrees_self _, advances_of_stop_eq fun _ => rfl⟩
    transaction := fun h => ⟨agrees_self _, advances_transaction h.2⟩ }

/-- Where no level is left the guard trips, over the type that is read with more levels. -/
theorem agrees_guard (limit deepLimit levels : Nat) :
    Agrees limit (TypeSig.decodeWithin limit 0) (TypeSig.decodeWithin deepLimit levels) := by
  intro start
  refine .trips fun type stop hrun => ?_
  obtain ⟨bytes, ⟨htype, -⟩, hbytes⟩ := (TypeSig.recognizes_decodeWithin _ _ _ _ _).1 hrun
  exact ⟨type, bytes, stop, htype, hbytes, Nat.le_refl _⟩

end Decoder

namespace TypeSig

/-- With more levels a type is read alike, unless the guard trips on the fewer ones. -/
theorem agrees_decodeWithin (limit deepLimit : Nat) {levels deepLevels : Nat}
    (hle : levels ≤ deepLevels) :
    Agrees limit (decodeWithin limit levels) (decodeWithin deepLimit deepLevels) :=
  ((congruence_agrees limit).compatible.decodeWithin limit deepLimit (fun more =>
    ⟨agrees_guard limit deepLimit more, advances_decodeWithin deepLimit more⟩) hle).1

end TypeSig

/-- Without the check at the end of a blob, all that a blob can be asked for is read alike with more
levels, unless the guard trips. -/
theorem Subject.agrees_decode {maxDepth deepDepth : Nat} (hle : maxDepth ≤ deepDepth)
    (kind : SubjectKind) :
    Agrees (max maxDepth 1) (decode ⟨maxDepth, false⟩ kind) (decode ⟨deepDepth, false⟩ kind) := by
  have hlimit : max maxDepth 1 ≤ max deepDepth 1 := by omega
  have hfinish : Agrees (max maxDepth 1) (finish ⟨maxDepth, false⟩) (finish ⟨deepDepth, false⟩) :=
    agrees_self (finish ⟨deepDepth, false⟩)
  exact ((congruence_agrees (max maxDepth 1)).compatible.subject (fun levels =>
    ⟨agrees_guard _ _ levels, advances_decodeWithin _ levels⟩)
    ⟨hfinish, advances_finish _⟩ hlimit kind).1

end SignatureBlob
