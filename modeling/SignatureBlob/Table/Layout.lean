import SignatureBlob.Listing

/-!
# Layout of tables

A table as lines of text: each column as wide as its widest cell, up to a greatest width, with the
blanks beside it that the column asks for. A cell that is wider than its column takes several lines.
Cells hold ASCII, so that a cell is as wide as it is long.

The words of a wide cell are put on a line as long as they fit, with a blank between them. A word
that does not fit begins a new line; but a word that is wider than any line is cut where the line
ends, if the line has room for more than `minRoom` of its characters.
-/

namespace SignatureBlob.Table

/-! ## Wide cells -/

/-- A line with no more room than this is full. -/
def minRoom : Nat := 2

/-- Lines under way. -/
structure Layout where
  /-- The lines that are complete, the last of them first. -/
  closed : List (List Char)
  /-- The characters of the line that is being filled, the last of them first. -/
  line : List Char
deriving DecidableEq, Repr

namespace Layout

/-- Nothing laid out. -/
def empty : Layout := ⟨[], []⟩

/-- Complete the line that is being filled. -/
def close (layout : Layout) : Layout := ⟨layout.line.reverse :: layout.closed, []⟩

/-- Complete the line if it is full. -/
def settle (width : Nat) (layout : Layout) : Layout :=
  if width - minRoom < layout.line.length then layout.close else layout

/-- Put a word on a new line. A word that is wider than a line is cut into lines. -/
def start (width : Nat) (closed : List (List Char)) (word : List Char) : Layout :=
  if 0 < width ∧ width < word.length then
    start width (word.take width :: closed) (word.drop width)
  else settle width ⟨closed, word.reverse⟩
termination_by word.length
decreasing_by
  rw [List.length_drop]
  omega

/-- The line that is being filled with a blank and characters behind it. -/
def extended (layout : Layout) (characters : List Char) : List Char :=
  characters.reverse ++ ' ' :: layout.line

/-- The number of characters that a line has room for behind a blank. -/
def room (width : Nat) (layout : Layout) : Nat := width - (layout.line.length + 1)

/-- Put the next word in its place. -/
def place (width : Nat) (layout : Layout) (word : List Char) : Layout :=
  let room := layout.room width
  if layout.line.isEmpty then start width layout.closed word
  else if layout.line.length + 1 + word.length ≤ width then
    settle width ⟨layout.closed, layout.extended word⟩
  else if width < word.length ∧ minRoom < room then
    start width ((layout.extended (word.take room)).reverse :: layout.closed) (word.drop room)
  else start width layout.close.closed word

/-- The lines in their order; a line that is empty so far is none. -/
def lines (layout : Layout) : List (List Char) :=
  (if layout.line.isEmpty then layout.closed else layout.close.closed).reverse

end Layout

/-- The lines of a cell. -/
def cellLines (width : Nat) (text : List Char) : List (List Char) :=
  if text.length ≤ width then [text]
  else ((Blank.split (· == ' ') text).foldl (Layout.place width) .empty).lines

/-! ## Columns -/

/-- The greatest width of a column, and of a block that is all blank. -/
def widthLimit : Nat := 0xFFFF

/-- The width of a column with some cells. -/
def columnWidth (cells : List String) : Nat :=
  min widthLimit ((cells.map String.length).foldr max 1)

/-- A number of blanks. -/
def blanks (count : Nat) : List Char := List.replicate count ' '

/-- A part of a cell brought to the width of the column, with the blanks beside it. -/
def fill (column : Column) (width : Nat) (part : List Char) : List Char :=
  let filler := blanks (width - part.length)
  let block := match column.alignment with
    | .left => part ++ filler
    | .right => filler ++ part
  blanks column.before ++ block ++ blanks column.after

/-- A block for a cell that has no part in a line. -/
def blankCell (column : Column) (width : Nat) : List Char :=
  blanks (min widthLimit (column.before + width + column.after))

/-! ## Lines -/

/-- The lines of a row. -/
def rowLines (columns : List (Column × Nat)) (row : List String) : List String :=
  let cells := List.zipWith (fun (_, width) cell => cellLines width cell.toList) columns row
  let height := (cells.map List.length).foldr max 0
  (List.range height).map fun index =>
    let block (column : Column × Nat) (cell : List (List Char)) : List Char :=
      match cell[index]? with
      | some part => fill column.1 column.2 part
      | none => blankCell column.1 column.2
    String.ofList (List.zipWith block columns cells).flatten

/-- The table as text, without a line break at its end. -/
def text (table : Table) : String :=
  let rows := table.columns.map Column.heading :: table.rows
  let columns := table.columns.zipIdx.map fun (column, index) =>
    (column, columnWidth (rows.filterMap fun row => row[index]?))
  "\n".intercalate (rows.flatMap (rowLines columns))

end SignatureBlob.Table
