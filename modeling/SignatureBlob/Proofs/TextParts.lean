import SignatureBlob.Proofs.Legibility
import SignatureBlob.Proofs.WellFormed
import SignatureBlob.Signature.Text

/-!
# Legible parts of texts

What the text of a type holds besides the texts of other types: the bounds in the brackets of an
array, the keywords of a method, the words that types begin with, and the list of parameters with
the dots of the sentinel.

A size shows as the last index of its dimension where there is a lower bound, and is told from the
two; the rank is told from the number of commas, for there is at least one dimension. No keyword
begins with another one or with the first word of a type, so that keywords and type are told apart.

Main statements: `ArrayShape.text_append_inj`, `MethodHeader.keywords_append_inj` and
`MethodHeader.paramItems_injective`.
-/

namespace SignatureBlob

/-! ## Array shapes -/

namespace ArrayShape

/-- What stands behind a dimension: a comma or the closing bracket. -/
def DimensionEnds (r : List Char) : Prop := ∃ c rest, r = c :: rest ∧ c ∈ [',', ']']

/-- A number, if there is one. -/
def boundText (bound : Option Int) : List Char := bound.elim [] fun bound => bound.repr.toList

/-- What stands behind a dimension is no digit. -/
theorem DimensionEnds.stops {r : List Char} (h : DimensionEnds r) : Stops Char.isDigit r := by
  obtain ⟨c, rest, rfl, hc⟩ := h
  have hends : ∀ d ∈ [',', ']'], d.isDigit = false := by simp
  exact stops_cons.2 (hends c hc)

/-- A number does not look like what stands behind a dimension. -/
theorem repr_append_ne_of_dimensionEnds {n : Int} {r s : List Char} (h : DimensionEnds s) :
    n.repr.toList ++ r ≠ s := by
  obtain ⟨c, rest, rfl, hc⟩ := h
  have hends : ∀ d ∈ [',', ']'], d.isDigit = false ∧ d ≠ '-' := by simp
  exact repr_append_ne_cons (hends c hc).1 (hends c hc).2 r rest

/-- A number that may be missing is told at the end of a dimension. -/
theorem boundText_append_inj {bound bound' : Option Int} {r s : List Char} (hr : DimensionEnds r)
    (hs : DimensionEnds s) (h : boundText bound ++ r = boundText bound' ++ s) :
    bound = bound' ∧ r = s := by
  cases bound with
  | none =>
    cases bound' with
    | none => exact ⟨rfl, h⟩
    | some m => exact absurd h.symm (repr_append_ne_of_dimensionEnds hr)
  | some n =>
    cases bound' with
    | none => exact absurd h (repr_append_ne_of_dimensionEnds hs)
    | some m =>
      obtain ⟨rfl, hend⟩ := repr_append_inj hr.stops hs.stops h
      exact ⟨rfl, hend⟩

/-- A number in front of dots is told from one at the end of a dimension. -/
theorem boundText_append_ne_dots {bound : Option Int} {n : Int} {r s : List Char}
    (hr : DimensionEnds r) : boundText bound ++ r ≠ n.repr.toList ++ '.' :: s := by
  intro h
  cases bound with
  | none => exact repr_append_ne_of_dimensionEnds hr h.symm
  | some m =>
    have hdot : Stops Char.isDigit ('.' :: s) := stops_cons.2 (by decide)
    obtain ⟨_, hend⟩ := repr_append_inj hr.stops hdot h
    obtain ⟨c, rest, hcons, hc⟩ := hr
    have hends : ∀ d ∈ [',', ']'], d ≠ '.' := by simp
    rw [hend, List.cons.injEq] at hcons
    exact hends c hc hcons.1.symm

/-- The text of a dimension from its lower bound and its size. -/
def boundsText (bounds : Option Int × Option Nat) : List Char :=
  (dimensionText bounds.1 bounds.2).toList

/-- Without a lower bound, the size alone is shown. -/
theorem boundsText_none (size : Option Nat) :
    boundsText (none, size) = boundText (size.map Int.ofNat) := by
  cases size with
  | none => simp [boundsText, dimensionText, boundText]
  | some size => simp [boundsText, dimensionText, boundText, Int.repr]

/-- With a lower bound, dots are between it and the upper bound. -/
theorem boundsText_some (lower : Int) (size : Option Nat) :
    boundsText (some lower, size) = lower.repr.toList ++
      '.' :: '.' :: '.' :: boundText (size.map fun size => lower + (size : Nat) - 1) := by
  cases size with
  | none => simp [boundsText, dimensionText, boundText]
  | some size => simp [boundsText, dimensionText, boundText]

/-- A dimension is told by its text. -/
theorem legible_boundsText (bounds bounds' : Option Int × Option Nat) :
    Legible boundsText id DimensionEnds bounds bounds' := by
  intro r s hr hs h
  obtain ⟨lower, size⟩ := bounds
  obtain ⟨lower', size'⟩ := bounds'
  have hdot : ∀ r, Stops Char.isDigit ('.' :: r) := fun r => stops_cons.2 (by decide)
  cases lower with
  | none =>
    cases lower' with
    | none =>
      rw [boundsText_none, boundsText_none] at h
      obtain ⟨hsize, hend⟩ := boundText_append_inj hr hs h
      rw [Option.map_injective (fun _ _ => Int.ofNat.inj) hsize]
      exact ⟨rfl, hend⟩
    | some lower' =>
      rw [boundsText_none, boundsText_some, List.append_assoc] at h
      exact absurd h (boundText_append_ne_dots hr)
  | some lower =>
    cases lower' with
    | none =>
      rw [boundsText_none, boundsText_some, List.append_assoc] at h
      exact absurd h.symm (boundText_append_ne_dots hs)
    | some lower' =>
      rw [boundsText_some, boundsText_some, List.append_assoc, List.append_assoc] at h
      obtain ⟨rfl, hrest⟩ := repr_append_inj (hdot _) (hdot _) h
      have hdots := (List.cons.inj (List.cons.inj (List.cons.inj hrest).2).2).2
      obtain ⟨hlast, hend⟩ := boundText_append_inj hr hs hdots
      have hsize : size = size' := by
        refine Option.map_injective ?_ hlast
        intro n m hnm
        dsimp only at hnm
        omega
      rw [hsize]
      exact ⟨rfl, hend⟩

/-- The lower bound and the size of each dimension. -/
def dimensions (shape : ArrayShape) : List (Option Int × Option Nat) :=
  (List.range shape.rank).map fun dimension =>
    (shape.lowerBounds[dimension]?, shape.sizes[dimension]?)

/-- A shape is shown as its dimensions with commas between them, in brackets. -/
theorem toList_text (shape : ArrayShape) :
    shape.text.toList = '[' :: ([','].intercalate (shape.dimensions.map boundsText) ++ [']']) := by
  simp [text, dimensions, boundsText, Function.comp_def]

/-- A well-formed array has a dimension. -/
theorem WellFormed.dimensions_ne_nil {shape : ArrayShape} (h : shape.WellFormed) :
    shape.dimensions ≠ [] := by
  have hpos := h.rank_pos
  intro hnil
  have hlength := congrArg List.length hnil
  simp only [dimensions, List.length_map, List.length_range, List.length_nil] at hlength
  omega

/-- A list that is no longer than the rank is told by its members at the dimensions. -/
theorem eq_of_getElem?_eq {α : Type} {rank : Nat} {values others : List α}
    (h : ∀ dimension < rank, values[dimension]? = others[dimension]?)
    (hvalues : values.length ≤ rank) (hothers : others.length ≤ rank) : values = others := by
  apply List.ext_getElem?
  intro dimension
  by_cases hlt : dimension < rank
  · exact h dimension hlt
  · rw [List.getElem?_eq_none (by omega), List.getElem?_eq_none (by omega)]

/-- A shape is told by its dimensions. -/
theorem eq_of_dimensions_eq {shape other : ArrayShape} (h : shape.WellFormed)
    (hother : other.WellFormed) (hdimensions : shape.dimensions = other.dimensions) :
    shape = other := by
  obtain ⟨rank, sizes, lowerBounds⟩ := shape
  obtain ⟨rank', sizes', lowerBounds'⟩ := other
  have hrank : rank = rank' := by
    have hlength := congrArg List.length hdimensions
    simpa [dimensions] using hlength
  subst hrank
  have heach : ∀ dimension < rank, lowerBounds[dimension]? = lowerBounds'[dimension]? ∧
      sizes[dimension]? = sizes'[dimension]? := by
    intro dimension hlt
    have hpair := List.map_inj_left.1 hdimensions dimension (List.mem_range.2 hlt)
    exact Prod.mk.inj hpair
  have hsizes : sizes = sizes' := eq_of_getElem?_eq (fun dimension hlt => (heach dimension hlt).2)
    h.sizes_length_le hother.sizes_length_le
  have hbounds : lowerBounds = lowerBounds' :=
    eq_of_getElem?_eq (fun dimension hlt => (heach dimension hlt).1) h.lowerBounds_length_le
      hother.lowerBounds_length_le
  rw [hsizes, hbounds]

/-- A shape is legible in front of anything. -/
theorem text_append_inj {shape other : ArrayShape} (h : shape.WellFormed)
    (hother : other.WellFormed) {r s : List Char}
    (htext : shape.text.toList ++ r = other.text.toList ++ s) : shape = other ∧ r = s := by
  rw [toList_text, toList_text] at htext
  have hlist : Legible (fun bounds => [','].intercalate (bounds.map boundsText)) (List.map id)
      (fun r => ∃ rest, r = ']' :: rest) shape.dimensions other.dimensions := by
    refine Legible.separated_of_ne_nil (by simp) h.dimensions_ne_nil hother.dimensions_ne_nil ?_
    intro bounds _ bounds' _
    refine (legible_boundsText bounds bounds').mono ?_
    rintro r (⟨rest, rfl⟩ | ⟨rest, rfl⟩)
    · exact ⟨']', rest, rfl, by decide⟩
    · exact ⟨',', rest, rfl, by decide⟩
  obtain ⟨hdimensions, hend⟩ := hlist (']' :: r) (']' :: s) ⟨r, rfl⟩ ⟨s, rfl⟩
    (by simpa using htext)
  rw [List.map_id, List.map_id] at hdimensions
  exact ⟨eq_of_dimensions_eq h hother hdimensions, (List.cons.inj hend).2⟩

end ArrayShape

/-! ## Keywords -/

/-- The words that the texts of types begin with. -/
def typeWords : List String :=
  Primitive.all.map Primitive.keyword ++ ["class ", "valuetype ", "!", "method "]

/-- The words of the keywords in front of the result of a method. -/
def methodWords : List String :=
  ["instance ", "explicit ", "unmanaged ", "cdecl ", "stdcall ", "thiscall ", "fastcall ",
    "vararg "]

/-- No word is the beginning of another. -/
theorem prefixFree_words : PrefixFree (methodWords ++ typeWords) := by decide

/-- The text of a type begins here. -/
def BeginsType (r : List Char) : Prop := ∃ word ∈ typeWords, ∃ rest, r = word.toList ++ rest

namespace MethodHeader

/-- The words that tell a convention. -/
def conventionWords : Convention → List String
  | .managed => []
  | .cdecl => ["unmanaged ", "cdecl "]
  | .stdCall => ["unmanaged ", "stdcall "]
  | .thisCall => ["unmanaged ", "thiscall "]
  | .fastCall => ["unmanaged ", "fastcall "]
  | .varArg => ["vararg "]
  | .unmanaged => ["unmanaged "]

/-- The words of the keywords. -/
def words (convention : Convention) (hasThis explicitThis : Bool) : List String :=
  (if hasThis then ["instance "] else []) ++ (if explicitThis then ["explicit "] else [])
    ++ conventionWords convention

/-- The keywords of a method are its words one behind the other. -/
theorem toList_keywords (header : MethodHeader) :
    header.keywords.toList =
      (words header.convention header.hasThis header.explicitThis).flatMap String.toList := by
  obtain ⟨convention, hasThis, explicitThis, generic, arity, sentinel⟩ := header
  cases convention <;> cases hasThis <;> cases explicitThis <;>
    simp [keywords, words, conventionWords, Convention.keyword]

/-- Only words of methods are among them. -/
theorem words_subset (convention : Convention) (hasThis explicitThis : Bool) :
    ∀ word ∈ words convention hasThis explicitThis, word ∈ methodWords := by
  cases convention <;> cases hasThis <;> cases explicitThis <;> decide

/-- What the words tell. -/
theorem contains_words (convention : Convention) (hasThis explicitThis : Bool) :
    (words convention hasThis explicitThis).contains "instance " = hasThis ∧
      (words convention hasThis explicitThis).contains "explicit " = explicitThis ∧
      (words convention hasThis explicitThis).filter
        (fun word => !(["instance ", "explicit "].contains word)) = conventionWords convention := by
  cases convention <;> cases hasThis <;> cases explicitThis <;> decide

/-- Conventions are told from each other by their words. -/
theorem conventionWords_injective {convention other : Convention}
    (h : conventionWords convention = conventionWords other) : convention = other := by
  revert h
  cases convention <;> cases other <;> decide

/-- The words tell the convention and the two flags. -/
theorem words_injective {convention convention' : Convention}
    {hasThis hasThis' explicitThis explicitThis' : Bool}
    (h : words convention hasThis explicitThis = words convention' hasThis' explicitThis') :
    convention = convention' ∧ hasThis = hasThis' ∧ explicitThis = explicitThis' := by
  obtain ⟨hthis, hexplicit, hconvention⟩ := contains_words convention hasThis explicitThis
  obtain ⟨hthis', hexplicit', hconvention'⟩ := contains_words convention' hasThis' explicitThis'
  rw [h] at hthis hexplicit hconvention
  exact ⟨conventionWords_injective (hconvention.symm.trans hconvention'), hthis.symm.trans hthis',
    hexplicit.symm.trans hexplicit'⟩

/-- The keywords of a method are told apart in front of a type. -/
theorem keywords_append_inj {header other : MethodHeader} {r s : List Char} (hr : BeginsType r)
    (hs : BeginsType s) (h : header.keywords.toList ++ r = other.keywords.toList ++ s) :
    (header.convention = other.convention ∧ header.hasThis = other.hasThis ∧
      header.explicitThis = other.explicitThis) ∧ r = s := by
  have hmember : ∀ {header : MethodHeader},
      ∀ word ∈ words header.convention header.hasThis header.explicitThis,
        word ∈ methodWords ++ typeWords :=
    fun word hword => List.mem_append_left _ (words_subset _ _ _ word hword)
  have hnot : ∀ (header : MethodHeader),
      ∀ word ∈ words header.convention header.hasThis header.explicitThis, ∀ r,
        ¬ BeginsType (word.toList ++ r) := by
    rintro header word hword r ⟨word', hword', rest, hrest⟩
    have hdisjoint : ∀ word ∈ methodWords, word ∉ typeWords := by decide
    obtain ⟨rfl, _⟩ := prefixFree_words.append_inj (hmember word hword)
      (List.mem_append_right _ hword') hrest
    exact hdisjoint word (words_subset _ _ _ word hword) hword'
  have hpieces : Legible (List.flatMap String.toList) (List.map id) BeginsType
      (words header.convention header.hasThis header.explicitThis)
      (words other.convention other.hasThis other.explicitThis) := by
    refine Legible.flatMap (fun _ => True) (fun _ _ => trivial) (fun _ _ => trivial)
      (hnot header) (hnot other) ?_
    intro word hword word' hword' r s _ _ htext
    exact prefixFree_words.append_inj (hmember word hword) (hmember word' hword') htext
  rw [toList_keywords, toList_keywords] at h
  obtain ⟨hwords, hend⟩ := hpieces r s hr hs h
  rw [List.map_id, List.map_id] at hwords
  exact ⟨words_injective hwords, hend⟩

end MethodHeader

/-! ## Parameters -/

namespace MethodHeader

variable {α : Type}

/-- The members of the list of parameters, the dots being none of them. -/
def paramItems (sentinel : Option Nat) (params : List α) : List (Option α) :=
  match sentinel with
  | none => params.map some
  | some index => (params.take index).map some ++ none :: (params.drop index).map some

/-- Without dots, the members are the parameters. -/
theorem filterMap_map_some (params : List α) : (params.map some).filterMap id = params := by
  simp

/-- The members other than the dots are the parameters. -/
theorem filterMap_paramItems (sentinel : Option Nat) (params : List α) :
    (paramItems sentinel params).filterMap id = params := by
  cases sentinel with
  | none => exact filterMap_map_some params
  | some index =>
    show (((params.take index).map some) ++ none :: (params.drop index).map some).filterMap id
      = params
    rw [List.filterMap_append, List.filterMap_cons_none rfl, filterMap_map_some,
      filterMap_map_some, List.take_append_drop]

/-- Among parameters alone there are no dots. -/
theorem findIdx?_isNone_map_some (params : List α) :
    (params.map some).findIdx? Option.isNone = none := by
  simp [List.findIdx?_eq_none_iff]

/-- The dots stand where the sentinel is. -/
theorem findIdx?_paramItems {sentinel : Option Nat} {params : List α}
    (h : ∀ index, sentinel = some index → index < params.length) :
    (paramItems sentinel params).findIdx? Option.isNone = sentinel := by
  cases sentinel with
  | none => exact findIdx?_isNone_map_some params
  | some index =>
    have hlt := h index rfl
    show (((params.take index).map some) ++ none :: (params.drop index).map some).findIdx?
      Option.isNone = some index
    rw [List.findIdx?_append, findIdx?_isNone_map_some]
    simp [List.findIdx?_cons]
    omega

/-- The list of parameters tells the parameters and the place of the sentinel. -/
theorem paramItems_injective {sentinel other : Option Nat} {params params' : List α}
    (h : ∀ index, sentinel = some index → index < params.length)
    (hother : ∀ index, other = some index → index < params'.length)
    (hitems : paramItems sentinel params = paramItems other params') :
    sentinel = other ∧ params = params' := by
  constructor
  · rw [← findIdx?_paramItems h, hitems, findIdx?_paramItems hother]
  · rw [← filterMap_paramItems sentinel params, hitems, filterMap_paramItems]

/-- To change each parameter does not move the dots. -/
theorem map_paramItems {β : Type} (f : α → β) (sentinel : Option Nat) (params : List α) :
    (paramItems sentinel params).map (Option.map f) = paramItems sentinel (params.map f) := by
  have hsome : ∀ params : List α,
      (params.map some).map (Option.map f) = (params.map f).map some := by
    intro params
    rw [List.map_map, List.map_map]
    rfl
  cases sentinel with
  | none => exact hsome params
  | some index =>
    show (((params.take index).map some) ++ none :: (params.drop index).map some).map
      (Option.map f) = ((params.map f).take index).map some ++
        none :: ((params.map f).drop index).map some
    rw [List.map_append, List.map_cons, hsome, hsome, List.map_take, List.map_drop]
    rfl

end MethodHeader

end SignatureBlob
