import SignatureBlob.Error

/-!
# Byte readers

The codes of integers and tokens, and the requests to a cursor, do not depend on how the place in
the blob is kept: as a list of the bytes ahead, or as a number that is checked at every step. They
are stated once, for any way to read bytes.

Main definition: `ByteReader`.
-/

namespace SignatureBlob

/-- A way to read the bytes of a blob one after the other. -/
class ByteReader (m : Type → Type) extends Monad m where
  /-- The number of bytes in the whole blob. -/
  length : m Nat
  /-- Whether the whole blob is empty. -/
  isEmpty : m Bool
  /-- Whether any byte is ahead. -/
  hasMore : m Bool
  /-- The number of bytes behind the place. -/
  position : m Nat
  /-- The number of bytes ahead. -/
  remaining : m Nat
  /-- The next byte, which stays ahead. -/
  peek : m UInt8
  /-- The next byte. -/
  byte : m UInt8
  /-- Fail unless `count` bytes are ahead. -/
  ensure (count : Nat) : m Unit
  /-- The next `count` bytes, or none of them. -/
  bytes (count : Nat) : m (List UInt8)
  /-- Fail without moving. -/
  fail {α : Type} (error : Error) : m α
  /-- Go back to the start on failure. -/
  transaction {α : Type} (read : m α) : m α

namespace ByteReader

variable {α : Type} {m : Type → Type} [ByteReader m]

/-- Move past the next byte. -/
def skip : m Unit := do
  let _ ← byte
  return ()

/-- Refuse the byte `observed` at `offset`. -/
def refuse (offset : Nat) (observed : UInt8) (defect : Defect) : m α :=
  fail (.invalidEncoding offset observed defect)

end ByteReader

end SignatureBlob
