import SignatureBlob.Blank

/-!
# Listings

Rows of cells under headings, in columns without borders: two spaces between columns, nothing around
them, and no blanks at the ends of lines. How wide a column is and how its cells are laid out is
left to `Services.table`; a listing says what is laid out, and trims the lines that come back.
-/

namespace SignatureBlob

/-! ## Tables -/

/-- The side of a column at which cells are aligned. -/
inductive Alignment where
  | left
  | right
deriving DecidableEq, Repr

/-- A column of a table. -/
structure Column where
  /-- The cell at the top. -/
  heading : String
  /-- The side at which cells are aligned. -/
  alignment : Alignment
  /-- The number of blanks before each cell. -/
  before : Nat
  /-- The number of blanks behind each cell. -/
  after : Nat
deriving DecidableEq, Repr

/-- A table of cells without borders. -/
structure Table where
  /-- The columns from left to right. -/
  columns : List Column
  /-- The cells of each row, one for each column. -/
  rows : List (List String)
deriving DecidableEq, Repr

/-! ## Listings -/

namespace Listing

/-- A table without rows, all its columns aligned on the left. One blank stands on each side of a
boundary between columns, and none at the outer edges. -/
def ofHeadings (headings : List String) : Table where
  columns := headings.zipIdx.map fun (heading, index) => {
    heading
    alignment := .left
    before := if 0 < index then 1 else 0
    after := if index < headings.length - 1 then 1 else 0 }
  rows := []

/-- A table with a column, if there is one, aligned on the right. -/
def alignRight (index : Nat) (table : Table) : Table :=
  { table with columns := table.columns.modify index fun column =>
      { column with alignment := .right } }

/-- A table with one more row. -/
def addRow (table : Table) (cells : List String) : Table :=
  { table with rows := table.rows ++ [cells] }

/-- A table with more rows. -/
def addRows (table : Table) (rows : List (List String)) : Table := rows.foldl addRow table

/-- The text of a table, laid out by `print`, without the blanks at the ends of its lines and
without a line break behind the last. -/
def render (print : Table → String) (table : Table) : String :=
  "\n".intercalate ((Blank.closedLines (print table).toList).map fun line =>
    String.ofList (Blank.trimEnd line))

/-- Rows are added in their order. -/
theorem addRows_eq (table : Table) (rows : List (List String)) :
    addRows table rows = { table with rows := table.rows ++ rows } := by
  unfold addRows
  induction rows generalizing table with
  | nil => simp
  | cons row rows ih => rw [List.foldl_cons, ih, addRow, List.append_assoc, List.singleton_append]

end Listing

end SignatureBlob
