import SignatureBlob.HexWords

/-!
# Files of blobs

A text file with one blob per line in hexadecimal words. Blank lines and lines that begin with a
number sign hold no blob; all lines are counted, from one. The first line that is no blob makes the
whole file unreadable.

Main statements: `HexLines.map_read_of_readAll` (each blob is that of its line) and
`HexLines.map_fst_readAll` (each blob keeps the number of its line).
-/

namespace SignatureBlob

/-- A line that holds no blob but should. -/
structure LineError where
  /-- The number of the line. -/
  line : Nat
  /-- What is wrong with its words. -/
  error : HexError
deriving DecidableEq, Repr

/-- The error in words, from the general to the particular. -/
def LineError.messages (error : LineError) : List String :=
  ("line " ++ toString error.line) :: error.error.messages

namespace HexLines

/-- Whether a line holds a blob. -/
def isLive (line : List Char) : Bool :=
  match line with
  | [] => false
  | c :: _ => c != '#'

/-- The lines that hold a blob, with their numbers. -/
def live (contents : String) : List (Nat × List Char) :=
  ((Blank.lines contents.toList).zipIdx 1).filterMap fun (line, number) =>
    if isLive line then some (number, line) else none

/-- The blobs of numbered lines. -/
def readAll : List (Nat × List Char) → Except LineError (List (Nat × List UInt8))
  | [] => .ok []
  | (number, line) :: lines =>
    match HexWords.read [String.ofList line] with
    | .error error => .error ⟨number, error⟩
    | .ok blob => do
      let blobs ← readAll lines
      return (number, blob) :: blobs

/-- The blobs of a file, with the numbers of their lines. -/
def read (contents : String) : Except LineError (List (Nat × List UInt8)) :=
  readAll (live contents)

/-- What each line is read as when all are read. -/
theorem map_read_of_readAll {lines : List (Nat × List Char)} {blobs : List (Nat × List UInt8)}
    (h : readAll lines = .ok blobs) :
    (lines.map fun line => (line.1, HexWords.read [String.ofList line.2])) =
      blobs.map fun blob => (blob.1, .ok blob.2) := by
  induction lines generalizing blobs with
  | nil => cases h; rfl
  | cons line lines ih =>
    obtain ⟨number, line⟩ := line
    rw [readAll] at h
    cases hline : HexWords.read [String.ofList line] with
    | error error => rw [hline] at h; cases h
    | ok blob =>
      rw [hline] at h
      cases hlines : readAll lines with
      | error error => rw [hlines] at h; cases h
      | ok others => rw [hlines] at h; cases h; simp [hline, ih hlines]

/-- Each blob keeps the number of its line. -/
theorem map_fst_readAll {lines : List (Nat × List Char)} {blobs : List (Nat × List UInt8)}
    (h : readAll lines = .ok blobs) : blobs.map Prod.fst = lines.map Prod.fst := by
  have hfst := congrArg (List.map Prod.fst) (map_read_of_readAll h)
  rw [List.map_map, List.map_map] at hfst
  exact hfst.symm

end HexLines

end SignatureBlob
