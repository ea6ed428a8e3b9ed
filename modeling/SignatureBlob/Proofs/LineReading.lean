import SignatureBlob.HexLines
import SignatureBlob.Proofs.HexSpelling

/-!
# Reading a file line by line

Which lines of a text hold a blob, told by the text alone, and what reading the whole file makes of
them: each line is read as if it were the only one, until the first that cannot be read.

Main definition: `HexLines.Live`. Main statements: `HexLines.mem_live_iff` (no such line is missed
and none is numbered wrongly), `HexLines.mem_of_read_eq_ok` and `HexLines.exists_of_read_eq_error`.
-/

namespace SignatureBlob

/-! ## Runs between separators -/

namespace Blank

variable {separates : Char → Bool} {text run gap : List Char} {index : Nat}

/-- A run of a text in which no separator stands, up to a separator or the end, with the number of
separators in front of it. -/
inductive IsRun (separates : Char → Bool) : Nat → List Char → List Char → Prop
  | here (run rest : List Char) (inside : ∀ c ∈ run, separates c = false)
      (ends : ∀ c, rest.head? = some c → separates c = true) :
      IsRun separates 0 (run ++ rest) run
  | behind {index : Nat} {rest run : List Char} {c : Char} (first : List Char)
      (inside : ∀ d ∈ first, separates d = false) (between : separates c = true)
      (tail : IsRun separates index rest run) :
      IsRun separates (index + 1) (first ++ c :: rest) run

/-- What stands before the first separator is the first part. -/
theorem split_append_cons {first rest : List Char} {c : Char}
    (h : ∀ d ∈ first, separates d = false) (hc : separates c = true) :
    split separates (first ++ c :: rest) = first :: split separates rest := by
  have hsplit : split separates (c :: rest) = [] :: split separates rest := by
    rw [split_cons, if_pos hc]
  rw [split_append_of_inside h hsplit, List.append_nil]

/-- Splitting finds each run in its place. -/
theorem getElem?_split_eq_some_iff :
    (split separates text)[index]? = some run ↔ IsRun separates index text run := by
  constructor
  · intro h
    induction text generalizing index run with
    | nil =>
      obtain ⟨rfl, rfl⟩ : index = 0 ∧ run = [] := by
        simpa [split_nil, List.getElem?_cons, eq_comm] using h
      exact .here [] [] nofun nofun
    | cons c text ih =>
      rw [split_cons] at h
      cases hc : separates c with
      | true =>
        rw [if_pos hc] at h
        cases index with
        | zero =>
          cases h
          exact .here [] (c :: text) nofun (by simpa using hc)
        | succ index => exact .behind [] nofun hc (ih h)
      | false =>
        rw [hc, if_neg Bool.false_ne_true] at h
        -- the character belongs to the first run of the rest and leaves the others as they are
        cases hsplit : split separates text with
        | nil => exact absurd hsplit (split_ne_nil _ _)
        | cons first others =>
          rw [hsplit] at h ih
          cases index with
          | zero =>
            cases h
            have hfirst : IsRun separates 0 text first := ih rfl
            cases hfirst with
            | here run rest inside ends =>
              exact .here (c :: first) rest (List.forall_mem_cons.2 ⟨hc, inside⟩) ends
          | succ index =>
            have hother : IsRun separates (index + 1) text run := ih h
            cases hother with
            | behind front inside between tail =>
              exact .behind (c :: front) (List.forall_mem_cons.2 ⟨hc, inside⟩) between tail
  · intro h
    induction h with
    | here run rest inside ends =>
      obtain ⟨runs, hsplit, -⟩ := exists_split_eq_nil_cons ends
      rw [split_append_of_inside inside hsplit, List.append_nil]
      rfl
    | behind first inside between tail ih =>
      rw [split_append_cons inside between]
      exact ih

/-! ## Blanks around a text -/

/-- More separators at the end of a text leave its fields as they are. -/
theorem Spaced.append_of_separates {parts : List (List Char)} (h : Spaced separates parts text)
    (hgap : ∀ c ∈ gap, separates c = true) : Spaced separates parts (text ++ gap) := by
  induction h with
  | blank between => exact .blank (List.forall_mem_append.2 ⟨between, hgap⟩)
  | @field before field rest others between nonempty inside ends tail ih =>
    rw [List.append_assoc, List.append_assoc]
    refine .field between nonempty inside ?_ ih
    intro c hc
    cases rest with
    | nil => exact hgap c (List.mem_of_head? hc)
    | cons d rest => exact ends c hc

/-- Separators at the end of a text are in no field. -/
theorem fields_append_right (hgap : ∀ c ∈ gap, separates c = true) (text : List Char) :
    fields separates (text ++ gap) = fields separates text :=
  fields_eq_iff.2 ((spaced_fields separates text).append_of_separates hgap)

/-- Without the blanks in front, a text is the trimmed one and blanks. -/
theorem exists_dropWhile_eq_trim (text : List Char) :
    ∃ after, text.dropWhile isBlank = trim text ++ after ∧ ∀ c ∈ after, isBlank c = true := by
  refine ⟨((text.dropWhile isBlank).reverse.takeWhile isBlank).reverse, ?_, fun c hc => ?_⟩
  · rw [trim, ← List.reverse_append, List.takeWhile_append_dropWhile, List.reverse_reverse]
  · exact List.all_eq_true.1 List.all_takeWhile c (List.mem_reverse.1 hc)

/-- The blanks around a text are in none of its fields, if blanks separate. -/
theorem fields_trim (h : ∀ c, isBlank c = true → separates c = true) (text : List Char) :
    fields separates (trim text) = fields separates text := by
  obtain ⟨after, hdrop, hafter⟩ := exists_dropWhile_eq_trim text
  have hbefore := List.all_eq_true.1 (List.all_takeWhile (p := isBlank) (l := text))
  calc fields separates (trim text)
      = fields separates (trim text ++ after) :=
        (fields_append_right (fun c hc => h c (hafter c hc)) _).symm
    _ = fields separates (text.takeWhile isBlank ++ text.dropWhile isBlank) := by
        rw [← hdrop, fields_append_of_separates fun c hc => h c (hbefore c hc)]
    _ = fields separates text := by rw [List.takeWhile_append_dropWhile]

/-- The first character that fails a test is the first one left when those before it are dropped. -/
theorem find?_not_eq_head?_dropWhile (test : Char → Bool) (text : List Char) :
    (text.find? fun c => !test c) = (text.dropWhile test).head? := by
  induction text with
  | nil => rfl
  | cons c text ih => cases hc : test c <;> simp [hc, ih]

/-- A text without the blanks around it begins with the first character that is no blank. -/
theorem head?_trim (text : List Char) : (trim text).head? = text.find? fun c => !isBlank c := by
  obtain ⟨after, hdrop, hafter⟩ := exists_dropWhile_eq_trim text
  rw [find?_not_eq_head?_dropWhile, hdrop]
  cases htrim : trim text with
  | cons c rest => rfl
  | nil =>
    cases after with
    | nil => rfl
    | cons c after =>
      have hhead := List.head?_dropWhile_not isBlank text
      simp only [hdrop, htrim, List.nil_append, List.head?_cons] at hhead
      rw [hafter c List.mem_cons_self] at hhead
      cases hhead

end Blank

/-! ## Lines with blobs -/

/-- Blanks around a text mean nothing. -/
theorem HexWords.read_trim (text : String) :
    read [String.ofList (Blank.trim text.toList)] = read [text] := by
  have hblank : ∀ c, Blank.isBlank c = true → separates c = true := by
    intro c hc
    rw [separates, hc, Bool.true_or]
  simp only [read, groups, List.flatMap_cons, List.flatMap_nil, String.toList_ofList,
    Blank.fields_trim hblank]

namespace HexLines

variable {contents : String} {number : Nat} {line : String} {lines : List (Nat × List Char)}
  {blob : List UInt8} {blobs : List (Nat × List UInt8)} {error : LineError}

/-- A line of a text with its number, the first line being number one. -/
def IsLine (contents : String) (number : Nat) (line : String) : Prop :=
  ∃ index, number = index + 1 ∧ Blank.IsRun (· == '\n') index contents.toList line.toList

/-- A line that should hold a blob: it has characters that are no blanks, and the first of these is
no number sign. -/
structure Live (contents : String) (number : Nat) (line : String) : Prop where
  isLine : IsLine contents number line
  exists_first : ∃ c, (line.toList.find? fun c => !Blank.isBlank c) = some c ∧ c ≠ '#'

/-- A trimmed line is live if it begins with a character that is no number sign. -/
theorem isLive_iff {text : List Char} :
    isLive text = true ↔ ∃ c, text.head? = some c ∧ c ≠ '#' := by
  cases text <;> simp [isLive]

/-- The numbered lines are those of the text, each without the blanks around it. -/
theorem mem_lines_iff {text : List Char} :
    (text, number) ∈ (Blank.lines contents.toList).zipIdx 1 ↔
      ∃ line, IsLine contents number line ∧ Blank.trim line.toList = text := by
  simp only [List.mk_mem_zipIdx_iff_le_and_getElem?_sub, Blank.lines, List.getElem?_map,
    Option.map_eq_some_iff, Blank.getElem?_split_eq_some_iff]
  constructor
  · rintro ⟨hpos, run, hrun, rfl⟩
    refine ⟨String.ofList run, ⟨number - 1, by omega, ?_⟩, ?_⟩ <;> rw [String.toList_ofList]
    exact hrun
  · rintro ⟨line, ⟨index, rfl, hrun⟩, rfl⟩
    exact ⟨Nat.le_add_left 1 index, line.toList, hrun, rfl⟩

/-- The lines with blobs are found, each with its number. -/
theorem mem_live_iff {text : List Char} :
    (number, text) ∈ live contents ↔
      ∃ line, Live contents number line ∧ Blank.trim line.toList = text := by
  simp only [live, List.mem_filterMap, Prod.exists, Option.ite_none_right_eq_some,
    Option.some.injEq, Prod.mk.injEq]
  constructor
  · rintro ⟨text, number, hmem, hlive, rfl, rfl⟩
    obtain ⟨line, hline, rfl⟩ := mem_lines_iff.1 hmem
    rw [isLive_iff, Blank.head?_trim] at hlive
    exact ⟨line, ⟨hline, hlive⟩, rfl⟩
  · rintro ⟨line, ⟨hline, hfirst⟩, rfl⟩
    refine ⟨_, number, mem_lines_iff.2 ⟨line, hline, rfl⟩, ?_, rfl, rfl⟩
    rwa [isLive_iff, Blank.head?_trim]

/-- The lines with blobs are numbered upwards. -/
theorem pairwise_live (contents : String) :
    (live contents).Pairwise fun first second => first.1 < second.1 := by
  have hnumbers : ((Blank.lines contents.toList).zipIdx 1).Pairwise fun first second =>
      first.2 < second.2 := by
    rw [← List.pairwise_map (f := Prod.snd) (R := (· < ·)), List.zipIdx_map_snd]
    exact List.pairwise_lt_range'
  refine hnumbers.filterMap _ ?_
  intro (text, number) (text', number') hlt first hfirst second hsecond
  simp only [Option.ite_none_right_eq_some, Option.some.injEq] at hfirst hsecond
  rw [← hfirst.2, ← hsecond.2]
  exact hlt

/-! ## Reading the lines -/

/-- The line that ends the reading is the first of those that cannot be read. -/
theorem exists_of_readAll_eq_error (h : readAll lines = .error error) :
    ∃ before text after, lines = before ++ (error.line, text) :: after ∧
      HexWords.read [String.ofList text] = .error error.error ∧
      ∀ line ∈ before, ∃ blob, HexWords.read [String.ofList line.2] = .ok blob := by
  induction lines with
  | nil => cases h
  | cons line lines ih =>
    obtain ⟨number, text⟩ := line
    rw [readAll] at h
    cases hline : HexWords.read [String.ofList text] with
    | error cause =>
      rw [hline] at h
      cases h
      exact ⟨[], text, lines, rfl, hline, List.forall_mem_nil _⟩
    | ok blob =>
      rw [hline] at h
      cases hlines : readAll lines with
      | ok others => rw [hlines] at h; cases h
      | error cause =>
        rw [hlines] at h
        cases h
        obtain ⟨before, bad, after, rfl, hbad, hbefore⟩ := ih hlines
        exact ⟨(number, text) :: before, bad, after, rfl, hbad,
          List.forall_mem_cons.2 ⟨⟨blob, hline⟩, hbefore⟩⟩

/-- The blobs of a file are those of its lines, each read by itself. -/
theorem mem_of_read_eq_ok (h : read contents = .ok blobs) :
    (number, blob) ∈ blobs ↔
      ∃ line, Live contents number line ∧ HexWords.read [line] = .ok blob := by
  have hblobs : (number, blob) ∈ blobs ↔
      (number, (.ok blob : Except HexError (List UInt8))) ∈ blobs.map fun (number, blob) =>
        (number, .ok blob) := by
    simp
  rw [hblobs, ← map_read_of_readAll h]
  simp only [List.mem_map, Prod.exists, Prod.mk.injEq]
  constructor
  · rintro ⟨number, text, hmem, rfl, hread⟩
    obtain ⟨line, hlive, rfl⟩ := mem_live_iff.1 hmem
    exact ⟨line, hlive, HexWords.read_trim line ▸ hread⟩
  · rintro ⟨line, hlive, hread⟩
    rw [← HexWords.read_trim] at hread
    exact ⟨number, _, mem_live_iff.2 ⟨line, hlive, rfl⟩, rfl, hread⟩

/-- The blobs of a file come in the order of their lines. -/
theorem pairwise_of_read_eq_ok (h : read contents = .ok blobs) :
    (blobs.map Prod.fst).Pairwise (· < ·) := by
  rw [map_fst_readAll h, List.pairwise_map]
  exact pairwise_live contents

/-- A file is refused for its first line that cannot be read. -/
theorem exists_of_read_eq_error (h : read contents = .error error) :
    ∃ line, Live contents error.line line ∧ HexWords.read [line] = .error error.error ∧
      ∀ number other, number < error.line → Live contents number other →
        ∃ blob, HexWords.read [other] = .ok blob := by
  obtain ⟨before, text, after, hlines, hread, hbefore⟩ := exists_of_readAll_eq_error h
  have hmem : (error.line, text) ∈ live contents := by
    rw [hlines]
    exact List.mem_append_right _ List.mem_cons_self
  obtain ⟨line, hlive, rfl⟩ := mem_live_iff.1 hmem
  rw [HexWords.read_trim] at hread
  refine ⟨line, hlive, hread, fun number other hlt hother => ?_⟩
  have horder := pairwise_live contents
  have hmem' := mem_live_iff.2 ⟨other, hother, rfl⟩
  rw [hlines] at horder hmem'
  -- neither the line itself nor any behind it has a smaller number
  have hin : (number, Blank.trim other.toList) ∈ before := by
    rcases List.mem_append.1 hmem' with hin | hin
    · exact hin
    · rcases List.mem_cons.1 hin with heq | hin
      · exact absurd (Prod.mk.inj heq).1 (Nat.ne_of_lt hlt)
      · have hbehind := (List.pairwise_cons.1 (List.pairwise_append.1 horder).2.1).1 _ hin
        exact absurd hbehind (Nat.lt_asymm hlt)
  obtain ⟨blob, hblob⟩ := hbefore _ hin
  exact ⟨blob, (HexWords.read_trim other).symm.trans hblob⟩

/-- A file is read if each of its lines can be read by itself. -/
theorem exists_read_eq_ok_iff :
    (∃ blobs, read contents = .ok blobs) ↔
      ∀ number line, Live contents number line → ∃ blob, HexWords.read [line] = .ok blob := by
  constructor
  · rintro ⟨blobs, h⟩ number line hlive
    have hread : (number, HexWords.read [line]) ∈ blobs.map fun (number, blob) =>
        (number, .ok blob) := by
      rw [← map_read_of_readAll h, ← HexWords.read_trim]
      exact List.mem_map_of_mem (mem_live_iff.2 ⟨line, hlive, rfl⟩)
    obtain ⟨⟨number', blob⟩, -, heq⟩ := List.mem_map.1 hread
    exact ⟨blob, (Prod.mk.inj heq).2.symm⟩
  · intro h
    cases hread : read contents with
    | ok blobs => exact ⟨blobs, rfl⟩
    | error error =>
      obtain ⟨line, hlive, hline, -⟩ := exists_of_read_eq_error hread
      obtain ⟨blob, hblob⟩ := h error.line line hlive
      rw [hblob] at hline
      cases hline

end HexLines

end SignatureBlob
