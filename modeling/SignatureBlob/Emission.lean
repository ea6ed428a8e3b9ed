import SignatureBlob.Writer

/-!
# Emissions

Writing a value gives an emission: the bytes written, and, if the value has no encoding, the fault
that ended the writing. An emission does not depend on where it is put; the place of its fault is
the end of the bytes written before it.

Main statements: `Emission.append_empty`, `Emission.empty_append` and `Emission.append_assoc`
(emissions form a monoid under `++`).
-/

namespace SignatureBlob

/-- What ended the writing of a value, and the byte that was being written for. -/
structure Fault where
  /-- The byte that is to blame. -/
  observed : UInt8
  /-- Why it has no encoding. -/
  defect : Defect
deriving DecidableEq, Repr

/-- The bytes that writing a value gives. -/
@[ext]
structure Emission where
  /-- The bytes written. -/
  bytes : List UInt8
  /-- What ended the writing, if it did not end by itself. -/
  fault : Option Fault
deriving DecidableEq, Repr

namespace Emission

/-! ## Building emissions -/

/-- Nothing to write. -/
def empty : Emission := ⟨[], none⟩

/-- Bytes written as they are. -/
def ofBytes (bytes : List UInt8) : Emission := ⟨bytes, none⟩

/-- No byte, and the end of the writing. -/
def fail (observed : UInt8) (defect : Defect) : Emission := ⟨[], some ⟨observed, defect⟩⟩

/-- One emission behind another; behind a fault nothing is written. -/
protected def append (first second : Emission) : Emission :=
  match first.fault with
  | none => ⟨first.bytes ++ second.bytes, second.fault⟩
  | some _ => first

instance : Writer Emission where
  append := Emission.append
  empty := empty
  ofBytes := ofBytes
  fail := fail

/-- One byte. -/
abbrev byte (byte : UInt8) : Emission := Writer.byte byte

/-- Go on only if a condition holds. -/
abbrev require (condition : Bool) (observed : UInt8) (defect : Defect) : Emission :=
  Writer.require condition observed defect

/-- Emissions one behind the other. -/
abbrev concat (emissions : List Emission) : Emission := Writer.concat emissions

/-- One emission behind another is what appending them gives. -/
theorem append_def (first second : Emission) : first ++ second = first.append second := rfl

/-- Behind an emission without a fault the next one is written, with its fault. -/
theorem append_of_none {first : Emission} (h : first.fault = none) (second : Emission) :
    first ++ second = ⟨first.bytes ++ second.bytes, second.fault⟩ := by
  simp only [append_def, Emission.append, h]

/-- Behind a fault nothing is written. -/
theorem append_of_some {first : Emission} {fault : Fault} (h : first.fault = some fault)
    (second : Emission) : first ++ second = first := by
  simp only [append_def, Emission.append, h]

/-- Nothing in front of an emission leaves it as it is. -/
@[simp] theorem empty_append (emission : Emission) : empty ++ emission = emission := rfl

/-- Nothing behind an emission leaves it as it is. -/
@[simp] theorem append_empty (emission : Emission) : emission ++ empty = emission := by
  cases h : emission.fault with
  | none => rw [append_of_none h]; ext1 <;> simp [empty, h]
  | some fault => rw [append_of_some h]

/-- It does not matter which of three emissions are put together first. -/
theorem append_assoc (first second third : Emission) :
    first ++ second ++ third = first ++ (second ++ third) := by
  cases hfirst : first.fault with
  | some fault => rw [append_of_some hfirst, append_of_some hfirst, append_of_some hfirst]
  | none =>
    cases hsecond : second.fault with
    | some fault =>
      rw [append_of_some hsecond, append_of_some (by rw [append_of_none hfirst, hsecond])]
    | none =>
      rw [append_of_none hsecond, append_of_none hfirst, append_of_none hfirst,
        append_of_none (by simpa using hsecond)]
      simp [List.append_assoc]

/-- What holds is no obstacle. -/
@[simp] theorem require_true (observed : UInt8) (defect : Defect) :
    require true observed defect = empty := rfl

/-- What does not hold ends the writing. -/
@[simp] theorem require_false (observed : UInt8) (defect : Defect) :
    require false observed defect = fail observed defect := rfl

/-- No emissions one behind the other are nothing. -/
theorem concat_nil : concat [] = empty := rfl

/-- The first emission stands in front of the others. -/
theorem concat_cons (emission : Emission) (emissions : List Emission) :
    concat (emission :: emissions) = emission ++ concat emissions := rfl

/-! ## Using emissions -/

/-- The error of an emission that begins behind `start` bytes. -/
def error? (start : Nat) (emission : Emission) : Option Error :=
  emission.fault.map fun fault =>
    .invalidEncoding (start + emission.bytes.length) fault.observed fault.defect

/-- The bytes of a whole blob, or the error that no blob comes out for. -/
def toBlob (emission : Emission) : Except Error (List UInt8) :=
  match emission.error? 0 with
  | none => .ok emission.bytes
  | some error => .error error

end Emission

end SignatureBlob
