import SignatureBlob.Proofs.Recognition
import SignatureBlob.TypeSig.Decode

/-!
# The parameters of a method

A reader goes over the mark of the sentinel in a turn of its own and reads no parameter in it. For
reasoning about decoders it is more convenient to look for the mark and to read the parameter behind
it at once, so that there is a step for each parameter and none without. Both do the same.

Main definition: `MethodSig.decodeParams`. Main statement: `MethodSig.decodeWith_eq`.
-/

namespace SignatureBlob

open Decoder

namespace MethodSig

variable {α : Type} {inner : Decoder TypeSig} {convention : Convention}

/-- The sentinel mark, if it stands before the parameter at `index`. It may stand once, and only
where the convention has one. The answer is the place of the sentinel as known so far. -/
def decodeSentinel (convention : Convention) (index : Nat) (sentinel : Option Nat) :
    Decoder (Option Nat) := do
  let offset ← .position
  let lead ← .peek
  if lead ≠ ElementType.sentinelByte then return sentinel
  else if sentinel.isSome || !convention.admitsVarArgs then
    .refuse offset lead (.unexpectedSentinel convention)
  else
    .skip
    let offset ← .position
    let lead ← .peek
    if lead = ElementType.sentinelByte then
      .refuse offset lead (.unexpectedSentinel convention)
    else return some index

/-- The next parameters, the first of which is at `index`, and the place of the sentinel. -/
def decodeParams (inner : Decoder TypeSig) (convention : Convention) :
    (count : Nat) → (index : Nat) → (sentinel : Option Nat) →
      Decoder (List TypeSig × Option Nat)
  | 0, _, sentinel => return ([], sentinel)
  | count + 1, index, sentinel => do
    let sentinel ← decodeSentinel convention index sentinel
    let param ← inner
    let (params, sentinel) ← decodeParams inner convention count (index + 1) sentinel
    return (param :: params, sentinel)

/-! ## What goes on behind a look -/

/-- Nothing goes on behind a refusal. -/
theorem refuse_bind {β : Type} (offset : Nat) (observed : UInt8) (defect : Defect)
    (next : α → Decoder β) :
    (refuse offset observed defect >>= next) = refuse offset observed defect := rfl

/-- The look ahead and what goes on behind it, as two looks with verdicts. -/
theorem decodeSentinel_bind_eq (index : Nat) (sentinel : Option Nat)
    (next : Option Nat → Decoder α) :
    decodeSentinel convention index sentinel >>= next =
      (position >>= fun offset => peek >>= fun lead =>
        if lead ≠ ElementType.sentinelByte then next sentinel
        else if sentinel.isSome || !convention.admitsVarArgs then
          refuse offset lead (.unexpectedSentinel convention)
        else Decoder.skip >>= fun _ => position >>= fun offset => peek >>= fun lead =>
          if lead = ElementType.sentinelByte then
            refuse offset lead (.unexpectedSentinel convention)
          else next (some index)) := by
  simp only [decodeSentinel, bind_assoc, apply_ite (· >>= next), pure_bind, refuse_bind]

/-- A turn behind the sentinel and what goes on behind it. -/
theorem param_bind_eq (next : TypeSig → Decoder α) :
    Reader.param inner convention >>= next =
      (position >>= fun offset => peek >>= fun lead =>
        if lead = ElementType.sentinelByte then
          refuse offset lead (.unexpectedSentinel convention)
        else inner >>= next) := by
  simp only [Reader.param, Reader.lift_decoder, bind_assoc, apply_ite (· >>= next), refuse_bind]

/-- A turn in front of the sentinel and what goes on behind it. -/
theorem markOrParam_bind_eq (next : Option TypeSig → Decoder α) :
    Reader.markOrParam inner convention >>= next =
      (position >>= fun offset => peek >>= fun lead =>
        if lead = ElementType.sentinelByte then
          if convention.admitsVarArgs then Decoder.skip >>= fun _ => next none
          else refuse offset lead (.unexpectedSentinel convention)
        else inner >>= fun param => next (some param)) := by
  simp only [Reader.markOrParam, Reader.lift_decoder, bind_assoc, apply_ite (· >>= next),
    refuse_bind, pure_bind]

/-! ## Turns and steps -/

/-- Behind the sentinel there is no other mark. -/
theorem decodeParams_some (count index place : Nat) :
    decodeParams inner convention count index (some place) =
      (Reader.param inner convention).list count >>= fun params => pure (params, some place) := by
  induction count generalizing index with
  | zero => rfl
  | succ count ih =>
    rw [decodeParams, decodeSentinel_bind_eq, list_succ, bind_assoc, param_bind_eq]
    simp [ih]

/-- In front of the sentinel two turns do what is done at once for a parameter with a mark. -/
theorem params_eq (count index : Nat) :
    Reader.params inner convention count index =
      decodeParams inner convention count index none := by
  induction count generalizing index with
  | zero => rfl
  | succ count ih =>
    have hitems : Reader.items (Reader.param inner convention) (count + 1) =
        (Reader.param inner convention).list (count + 1) := rfl
    rw [decodeParams, decodeSentinel_bind_eq, Reader.params, Reader.turn_decoder,
      markOrParam_bind_eq]
    simp only [ih, hitems, decodeParams_some, list_succ, bind_assoc, pure_bind]
    rw [param_bind_eq]
    cases convention.admitsVarArgs <;> simp

/-- A method signature, with a step for each parameter. -/
theorem decodeWith_eq (inner : Decoder TypeSig) :
    decodeWith inner =
      MethodHeader.decode >>= fun header => CompressedInt.decodeUnsigned >>= fun count =>
        inner >>= fun result => decodeParams inner header.convention count 0 none >>= fun found =>
          pure ⟨{ header with sentinel := found.2 }, result, found.1⟩ := by
  simp only [decodeWith, Reader.method, Reader.resultAndParams, Reader.lift_decoder,
    Reader.tally_decoder, params_eq, bind_assoc, pure_bind]

end MethodSig

end SignatureBlob
