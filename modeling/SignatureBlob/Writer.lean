import SignatureBlob.Error

/-!
# Writers

What is written for a value does not depend on where it goes: it may be put at the end of a buffer,
or kept by itself. The encodings are stated once, for anything that takes bytes one behind the other
until it is told that there is no encoding.

Main definition: `Writer`.
-/

namespace SignatureBlob

/-- Something that bytes are written to. Behind a failure nothing is written. -/
class Writer (ω : Type) extends Append ω where
  /-- Nothing to write. -/
  empty : ω
  /-- Bytes written as they are. -/
  ofBytes (bytes : List UInt8) : ω
  /-- No byte, and the end of the writing; the byte `observed` is to blame. -/
  fail (observed : UInt8) (defect : Defect) : ω

namespace Writer

variable {ω : Type} [Writer ω]

/-- One byte. -/
def byte (byte : UInt8) : ω := ofBytes [byte]

/-- Go on only if a condition holds. -/
def require (condition : Bool) (observed : UInt8) (defect : Defect) : ω :=
  if condition then empty else fail observed defect

/-- One behind the other. -/
def concat (outputs : List ω) : ω := outputs.foldr (· ++ ·) empty

end Writer

end SignatureBlob
