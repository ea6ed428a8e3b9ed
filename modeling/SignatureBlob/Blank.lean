/-!
# Blank characters and lines

The characters with the property White_Space, the words of a text between them, and the lines of a
text without the blanks around them.

Main statement: `split_ne_nil` (a text without separators is one run).
-/

namespace SignatureBlob.Blank

/-! ## The property White_Space -/

/-- The ranges of characters with the property, first and last, in ascending order. -/
def ranges : List (Nat × Nat) :=
  [(0x0009, 0x000D), (0x0020, 0x0020), (0x0085, 0x0085), (0x00A0, 0x00A0), (0x1680, 0x1680),
    (0x2000, 0x200A), (0x2028, 0x2029), (0x202F, 0x202F), (0x205F, 0x205F), (0x3000, 0x3000)]

/-- Whether a character has the property. -/
def isBlank (c : Char) : Bool :=
  ranges.any fun (first, last) => first ≤ c.toNat && c.toNat ≤ last

/-- The property belongs to 25 characters. -/
example : (ranges.map fun (first, last) => last + 1 - first).sum = 25 := by decide

/-! ## Fields -/

/-- The runs of characters between separators, empty ones included. -/
def split (separates : Char → Bool) (text : List Char) : List (List Char) :=
  text.foldr (fun c runs =>
    if separates c then [] :: runs
    else
      match runs with
      | [] => [[c]]
      | run :: runs => (c :: run) :: runs) [[]]

/-- An empty text is one empty run. -/
theorem split_nil (separates : Char → Bool) : split separates [] = [[]] := rfl

/-- A separator closes a run, and every other character goes to the front of the run behind it. -/
theorem split_cons (separates : Char → Bool) (c : Char) (rest : List Char) :
    split separates (c :: rest) =
      if separates c then [] :: split separates rest
      else
        match split separates rest with
        | [] => [[c]]
        | run :: runs => (c :: run) :: runs := rfl

/-- The runs of characters between separators that are not empty. -/
def fields (separates : Char → Bool) (text : List Char) : List (List Char) :=
  (split separates text).filter fun field => !field.isEmpty

/-- There is at least one run. -/
theorem split_ne_nil (separates : Char → Bool) (text : List Char) : split separates text ≠ [] := by
  cases text with
  | nil => simp [split_nil]
  | cons c rest =>
    rw [split_cons]
    split
    · simp
    · split <;> simp

/-! ## Lines -/

/-- A text without the blanks at its start and at its end. -/
def trim (text : List Char) : List Char :=
  ((text.dropWhile isBlank).reverse.dropWhile isBlank).reverse

/-- A text without the blanks at its end. -/
def trimEnd (text : List Char) : List Char :=
  (text.reverse.dropWhile isBlank).reverse

/-- The lines of a text, without the blanks around each. -/
def lines (text : List Char) : List (List Char) :=
  (split (· == '\n') text).map trim

/-- The lines of a text as they stand, where a line break closes a line: behind the last break there
is a line only if something stands there. -/
def closedLines (text : List Char) : List (List Char) :=
  let runs := split (· == '\n') text
  if runs.getLast? = some [] then runs.dropLast else runs

end SignatureBlob.Blank
