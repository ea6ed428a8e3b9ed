/-!
# Cursors

A cursor is a place in a blob: how many bytes lie behind it, and the bytes ahead of it. Since the
bytes ahead are a list of their own, a cursor cannot stand outside its blob.
-/

namespace SignatureBlob

/-- A place in a blob. -/
structure Cursor where
  /-- The number of bytes behind the cursor. -/
  position : Nat
  /-- The bytes ahead of the cursor. -/
  ahead : List UInt8
deriving DecidableEq, Repr

namespace Cursor

/-- The cursor before the first byte of a blob. -/
def start (blob : List UInt8) : Cursor := ⟨0, blob⟩

/-- The number of bytes ahead. -/
def remaining (cursor : Cursor) : Nat := cursor.ahead.length

/-- The number of bytes in the whole blob. -/
def length (cursor : Cursor) : Nat := cursor.position + cursor.remaining

/-- Whether any byte is ahead. -/
def hasMore (cursor : Cursor) : Bool := !cursor.ahead.isEmpty

/-- Whether the whole blob is empty. -/
def isEmpty (cursor : Cursor) : Bool := cursor.length == 0

/-- At the start all bytes of the blob are ahead. -/
theorem length_start (blob : List UInt8) : (start blob).length = blob.length := by
  simp [length, start, remaining]

end Cursor

end SignatureBlob
