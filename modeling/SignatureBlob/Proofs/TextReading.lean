import SignatureBlob.Proofs.RoundTrip
import SignatureBlob.Proofs.TextParts

/-!
# Reading texts

The text of a signature tells the signature, but for one thing: a general array of one dimension
without bounds has the text of a vector. Types that differ in nothing else are the same once every
such array is a vector, at all depths, which is what `TypeSig.vectorized` makes of a type.

A text begins with a core and each type around the core adds a suffix. Cores are told by their
first words. Of what stands behind a type only a space leaves the choice between another suffix
and the end, which the character behind the space decides (`TextEnds`). Method signatures and
function pointers share the reading of their text, and properties have the text of a method.

Main definitions: `TypeSig.vectorized` and `Signature.vectorized`. Main statement:
`Signature.text_eq_iff_vectorized_eq`.
-/

namespace SignatureBlob

/-! ## What texts show -/

/-- An array of the shape; one dimension without bounds makes a vector. -/
def TypeSig.withShape (element : TypeSig) (shape : ArrayShape) : TypeSig :=
  if shape = ⟨1, [], []⟩ then .vector element else .array element shape

namespace TypeSig

mutual

/-- The type with each array of one dimension without bounds made a vector. -/
def vectorized : TypeSig → TypeSig
  | primitive kind => primitive kind
  | classType token => classType token
  | valueType token => valueType token
  | vector element => vector (vectorized element)
  | array element shape => withShape (vectorized element) shape
  | pointer target => pointer (vectorized target)
  | byRef target => byRef (vectorized target)
  | genericParam index ofMethod => genericParam index ofMethod
  | instantiation base isValueType args => instantiation base isValueType (vectorizedEach args)
  | functionPointer header result params =>
    functionPointer header (vectorized result) (vectorizedEach params)
  | modified modifier required inner => modified modifier required (vectorized inner)
  | pinned inner => pinned (vectorized inner)

/-- Each of some types with such arrays made vectors. -/
def vectorizedEach : List TypeSig → List TypeSig
  | [] => []
  | type :: types => vectorized type :: vectorizedEach types

end

/-- The types of a list are vectorized one by one. -/
theorem vectorizedEach_eq_map (types : List TypeSig) :
    vectorizedEach types = types.map vectorized := by
  induction types with
  | nil => rfl
  | cons type types ih => simp [vectorizedEach, ih]

/-- An array is shown as its element and its shape, whether it is made a vector or not. -/
theorem text_withShape (element : TypeSig) (shape : ArrayShape) :
    (element.withShape shape).text = element.text ++ shape.text := by
  unfold withShape
  by_cases hshape : shape = ⟨1, [], []⟩
  · rw [if_pos hshape, hshape]
    rfl
  · rw [if_neg hshape]
    rfl

/-- A type keeps its text when arrays are made vectors. -/
theorem text_vectorized (type : TypeSig) : type.vectorized.text = type.text := by
  induction type using induction_on_children with
  | step type ih =>
    have heach : ∀ types : List TypeSig, (∀ child ∈ types, child ∈ type.children) →
        texts (vectorizedEach types) = texts types := by
      intro types htypes
      rw [texts_eq_map, texts_eq_map, vectorizedEach_eq_map, List.map_map]
      exact List.map_congr_left fun child hchild => ih child (htypes child hchild)
    cases type with
    | primitive | classType | valueType | genericParam => rfl
    | instantiation base isValueType args =>
      simp [vectorized, text, heach args fun child hchild => hchild]
    | vector inner | pointer inner | byRef inner | modified _ _ inner | pinned inner =>
      simp [vectorized, text, ih inner (by simp [children])]
    | array inner shape =>
      simp [vectorized, text, text_withShape, ih inner (by simp [children])]
    | functionPointer header result params =>
      simp [vectorized, text, ih result (by simp [children]),
        heach params fun child hchild => by simp [children, hchild]]

end TypeSig

/-- The method with the arrays in its types made vectors. -/
def MethodSig.vectorized (method : MethodSig) : MethodSig :=
  ⟨method.header, method.result.vectorized, TypeSig.vectorizedEach method.params⟩

/-- The signature with each array of one dimension without bounds made a vector, at all depths. -/
def Signature.vectorized : Signature → Signature
  | method m => method m.vectorized
  | field type => field type.vectorized
  | property hasThis type params => property hasThis type.vectorized (TypeSig.vectorizedEach params)
  | locals types => locals (TypeSig.vectorizedEach types)
  | typeSpec type => typeSpec type.vectorized
  | methodSpec args => methodSpec (TypeSig.vectorizedEach args)

/-- One dimension without bounds is a well-formed shape. -/
theorem ArrayShape.wellFormed_vector : (ArrayShape.mk 1 [] []).WellFormed := by
  constructor <;> simp [maxRank]

/-! ## Cores and suffixes -/

/-- What a type adds behind the text of a type in it. A vector counts as an array of one dimension
without bounds. -/
inductive TextSuffix where
  | brackets (shape : ArrayShape)
  | pointer
  | byRef
  | arguments (args : List TypeSig)
  | modifier (token : Token) (required : Bool)
  | pinned

namespace TypeSig

/-- The type at the beginning of the text. -/
def core : TypeSig → TypeSig
  | primitive kind => primitive kind
  | classType token => classType token
  | valueType token => valueType token
  | genericParam index ofMethod => genericParam index ofMethod
  | functionPointer header result params => functionPointer header result params
  | instantiation base isValueType _ => if isValueType then valueType base else classType base
  | vector inner | array inner _ | pointer inner | byRef inner => core inner
  | modified _ _ inner | pinned inner => core inner

/-- What stands behind the core, the innermost first. -/
def textSuffixes : TypeSig → List TextSuffix
  | primitive _ | classType _ | valueType _ | genericParam _ _ | functionPointer _ _ _ => []
  | instantiation _ _ args => [.arguments args]
  | vector element => textSuffixes element ++ [.brackets ⟨1, [], []⟩]
  | array element shape => textSuffixes element ++ [.brackets shape]
  | pointer target => textSuffixes target ++ [.pointer]
  | byRef target => textSuffixes target ++ [.byRef]
  | modified modifier required inner => textSuffixes inner ++ [.modifier modifier required]
  | pinned inner => textSuffixes inner ++ [.pinned]

/-- Whether a type is one that a text can begin with. -/
def IsCore : TypeSig → Prop
  | primitive _ | classType _ | valueType _ | genericParam _ _ | functionPointer _ _ _ => True
  | _ => False

/-- The core of a type is one that a text can begin with. -/
theorem isCore_core (type : TypeSig) : type.core.IsCore := by
  induction type using induction_on_children with
  | step type ih =>
    cases type with
    | primitive | classType | valueType | genericParam | functionPointer => trivial
    | instantiation base isValueType args => cases isValueType <;> trivial
    | vector inner | array inner | pointer inner | byRef inner | modified _ _ inner
    | pinned inner => exact ih inner (by simp [children])

/-- The core of a well-formed type is well-formed. -/
theorem wellFormed_core {type : TypeSig} (h : type.WellFormed) : type.core.WellFormed := by
  induction type using induction_on_children with
  | step type ih =>
    obtain ⟨root, hchildren⟩ := id h
    cases type with
    | primitive | classType | valueType | genericParam | functionPointer => exact h
    | instantiation base isValueType args =>
      cases isValueType with
      | false => exact .intro root.1 nofun
      | true => exact .intro root.1 nofun
    | vector inner | array inner | pointer inner | byRef inner | modified _ _ inner
    | pinned inner =>
      exact ih inner (by simp [children]) (hchildren inner (by simp [children]))

end TypeSig

namespace TextSuffix

/-- A parameter of a method or the dots of the sentinel. -/
def itemText : Option TypeSig → List Char
  | none => ['.', '.', '.']
  | some type => type.text.toList

/-- The text of a list of parameters. -/
def itemList (items : List (Option TypeSig)) : List Char :=
  [',', ' '].intercalate (items.map itemText)

/-- The suffix as it stands in a text. -/
def text : TextSuffix → List Char
  | brackets shape => shape.text.toList
  | pointer => ['*']
  | byRef => ['&']
  | arguments args => '<' :: (itemList (args.map some) ++ ['>'])
  | modifier token required =>
    (if required then " modreq(" else " modopt(").toList ++ (token.text.toList ++ [')'])
  | pinned => [' ', 'p', 'i', 'n', 'n', 'e', 'd']

/-- What tells the suffix from those of other kinds, at the beginning of its text. -/
def mark : TextSuffix → String
  | brackets _ => "["
  | pointer => "*"
  | byRef => "&"
  | arguments _ => "<"
  | modifier _ _ => " m"
  | pinned => " p"

/-- The type with the suffix behind its text. -/
def apply : TextSuffix → TypeSig → TypeSig
  | brackets shape, type => type.withShape shape
  | pointer, type => .pointer type
  | byRef, type => .byRef type
  | arguments args, .classType base => .instantiation base false (args.map TypeSig.vectorized)
  | arguments args, .valueType base => .instantiation base true (args.map TypeSig.vectorized)
  | arguments _, type => type
  | modifier token required, type => .modified token required type
  | pinned, type => .pinned type

/-- Type arguments are shown as a list without dots. -/
theorem toList_commaList (types : List TypeSig) :
    (commaList (TypeSig.texts types)).toList = itemList (types.map some) := by
  rw [commaList, String.toList_intercalate, TypeSig.texts_eq_map, List.map_map, itemList,
    List.map_map]
  rfl

end TextSuffix

namespace TypeSig

open TextSuffix

/-- A text is its core and the suffixes behind it. -/
theorem toList_text (type : TypeSig) :
    type.text.toList = type.core.text.toList ++ type.textSuffixes.flatMap TextSuffix.text := by
  induction type using induction_on_children with
  | step type ih =>
    cases type with
    | primitive | classType | valueType | genericParam | functionPointer =>
      simp [core, textSuffixes]
    | instantiation base isValueType args =>
      cases isValueType <;> simp [core, textSuffixes, text, TextSuffix.text, toList_commaList]
    | vector inner =>
      have hshape : (ArrayShape.text ⟨1, [], []⟩).toList = ['[', ']'] := by decide
      simp [core, textSuffixes, text, ih inner (by simp [children]), TextSuffix.text, hshape]
    | array inner | pointer inner | byRef inner | pinned inner =>
      simp [core, textSuffixes, text, ih inner (by simp [children]), TextSuffix.text]
    | modified modifier required inner =>
      simp [core, textSuffixes, text, ih inner (by simp [children]), TextSuffix.text]

/-- What a text shows is its core with the suffixes put to it. -/
theorem vectorized_eq_foldl (type : TypeSig) :
    type.vectorized =
      type.textSuffixes.foldl (fun type suffix => suffix.apply type) type.core.vectorized := by
  induction type using induction_on_children with
  | step type ih =>
    cases type with
    | primitive | classType | valueType | genericParam | functionPointer => rfl
    | instantiation base isValueType args =>
      cases isValueType <;> simp [vectorized, core, textSuffixes, apply, vectorizedEach_eq_map]
    | vector inner | array inner | pointer inner | byRef inner | modified _ _ inner
    | pinned inner =>
      simp [vectorized, core, textSuffixes, apply, ih inner (by simp [children]), withShape]

end TypeSig

/-! ## What stands behind a text -/

/-- What may stand behind the text of a type: nothing, a comma or the end of a list, or a space in
front of generic parameters or of the parameters of a method. -/
def TextEnds (r : List Char) : Prop :=
  r = [] ∨ (∃ c rest, r = c :: rest ∧ c ∈ [',', ')', '>']) ∨
    ∃ c rest, r = ' ' :: c :: rest ∧ c ∈ ['<', '*', '(']

/-- What stands behind a text is no digit. -/
theorem TextEnds.stops {r : List Char} (h : TextEnds r) : Stops Char.isDigit r := by
  have hclose : ∀ d ∈ [',', ')', '>'], d.isDigit = false := by simp
  rcases h with rfl | ⟨c, rest, rfl, hc⟩ | ⟨c, rest, rfl, _⟩
  · exact stops_nil _
  · exact stops_cons.2 (hclose c hc)
  · exact stops_cons.2 (by decide)

namespace TextSuffix

/-- The text of a suffix begins with its mark. -/
theorem exists_mark_append_eq (suffix : TextSuffix) :
    ∃ rest, suffix.mark.toList ++ rest = suffix.text := by
  cases suffix with
  | brackets shape => simp [mark, text, ArrayShape.toList_text]
  | modifier token required => cases required <;> simp [mark, text]
  | pointer | byRef | arguments | pinned => simp [mark, text]

/-- The kind of a suffix is told, whatever stands behind it. -/
theorem mark_eq_of_text_append_eq {suffix other : TextSuffix} {r s : List Char}
    (h : suffix.text ++ r = other.text ++ s) : suffix.mark = other.mark := by
  have hmarks : PrefixFree ["[", "*", "&", "<", " m", " p"] := by decide
  have hmem : ∀ suffix : TextSuffix, suffix.mark ∈ ["[", "*", "&", "<", " m", " p"] := by
    intro suffix
    cases suffix <;> simp [mark]
  obtain ⟨rest, hrest⟩ := suffix.exists_mark_append_eq
  obtain ⟨rest', hrest'⟩ := other.exists_mark_append_eq
  rw [← hrest, ← hrest', List.append_assoc, List.append_assoc] at h
  exact (hmarks.append_inj (hmem suffix) (hmem other) h).1

/-- A suffix begins with what is no digit. -/
theorem stops_text_append (suffix : TextSuffix) (r : List Char) :
    Stops Char.isDigit (suffix.text ++ r) := by
  obtain ⟨rest, hrest⟩ := suffix.exists_mark_append_eq
  rw [← hrest]
  cases suffix <;> simp [mark]

/-- No suffix looks like the end of a text. -/
theorem not_textEnds_text_append (suffix : TextSuffix) (r : List Char) :
    ¬ TextEnds (suffix.text ++ r) := by
  obtain ⟨rest, hrest⟩ := suffix.exists_mark_append_eq
  rw [← hrest]
  cases suffix <;> simp [mark, TextEnds]

end TextSuffix

namespace TypeSig

/-- The text of the type is told from those of all well-formed types. -/
def TextTells (type : TypeSig) : Prop :=
  ∀ other : TypeSig, other.WellFormed →
    Legible (fun type => type.text.toList) vectorized TextEnds type other

end TypeSig

/-! ## Reading cores -/

namespace TypeSig

/-- The word that the text of a core begins with. -/
def openingWord : TypeSig → String
  | primitive kind => kind.keyword
  | classType _ => "class "
  | valueType _ => "valuetype "
  | genericParam _ _ => "!"
  | _ => "method "

/-- The word that a core begins with is one of those that types begin with. -/
theorem openingWord_mem (type : TypeSig) : type.openingWord ∈ typeWords := by
  cases type with
  | primitive kind =>
    exact List.mem_append_left _ (List.mem_map_of_mem (Primitive.mem_all kind))
  | _ => exact List.mem_append_right _ (by simp [openingWord])

/-- The text of a core begins with its word. -/
theorem IsCore.exists_text_eq {type : TypeSig} (h : type.IsCore) :
    ∃ rest, type.text.toList = type.openingWord.toList ++ rest := by
  cases type with
  | primitive kind => exact ⟨[], by simp [text, openingWord]⟩
  | classType token => exact ⟨_, String.toList_append⟩
  | valueType token => exact ⟨_, String.toList_append⟩
  | genericParam index ofMethod =>
    cases ofMethod with
    | true => exact ⟨'!' :: Nat.toDigits 10 index, by simp [text, openingWord]⟩
    | false => exact ⟨Nat.toDigits 10 index, by simp [text, openingWord]⟩
  | functionPointer header result params => exact ⟨_, String.toList_append⟩
  | _ => exact h.elim

/-- The text of each type begins as one, whatever stands behind it. -/
theorem beginsType_text_append (type : TypeSig) (r : List Char) :
    BeginsType (type.text.toList ++ r) := by
  obtain ⟨rest, hrest⟩ := type.isCore_core.exists_text_eq
  refine ⟨type.core.openingWord, openingWord_mem _,
    rest ++ (type.textSuffixes.flatMap TextSuffix.text ++ r), ?_⟩
  rw [toList_text, hrest]
  simp only [List.append_assoc]

/-- The keywords of primitive types are told from the words of other cores. -/
theorem openingWord_primitive_ne (kind : Primitive) :
    kind.keyword ∉ ["class ", "valuetype ", "!", "method "] := by
  cases kind <;> decide

/-- Primitive types are told from each other by their keywords. -/
theorem keyword_injective {kind other : Primitive} (h : kind.keyword = other.keyword) :
    kind = other := by
  have hall : ∀ kind ∈ Primitive.all, ∀ other ∈ Primitive.all,
      kind.keyword = other.keyword → kind = other := by
    decide
  exact hall kind (Primitive.mem_all kind) other (Primitive.mem_all other) h

end TypeSig

/-! ## Reading lists of parameters -/

/-- What the text of a type begins with closes nothing and is no dot. -/
theorem BeginsType.exists_cons {r : List Char} (h : BeginsType r) :
    ∃ c rest, r = c :: rest ∧ c ∉ ['.', ')', '>'] := by
  obtain ⟨word, hword, rest, rfl⟩ := h
  have hwords : ∀ word ∈ typeWords, word.toList.head?.any (· ∉ ['.', ')', '>']) = true := by
    decide
  have hhead := hwords word hword
  cases hchars : word.toList with
  | nil =>
    rw [hchars] at hhead
    cases hhead
  | cons c chars =>
    rw [hchars] at hhead
    exact ⟨c, chars ++ rest, rfl, of_decide_eq_true hhead⟩

namespace TextSuffix

variable {close : Char} {r s : List Char}

/-- The dots of the sentinel are told from the types around them. -/
theorem legible_itemText {item item' : Option TypeSig}
    (h : ∀ type, item = some type → type.TextTells)
    (h' : ∀ type, item' = some type → type.WellFormed) :
    Legible itemText (Option.map TypeSig.vectorized) TextEnds item item' := by
  have hdots : ∀ (type : TypeSig) (r s : List Char),
      type.text.toList ++ r ≠ itemText none ++ s := by
    intro type r s heq
    obtain ⟨c, rest, hcons, hc⟩ := (type.beginsType_text_append r).exists_cons
    rw [hcons] at heq
    exact hc (by rw [(List.cons.inj heq).1]; decide)
  intro r s hr hs htext
  cases item with
  | none =>
    cases item' with
    | none => exact ⟨rfl, List.append_cancel_left htext⟩
    | some type => exact absurd htext.symm (hdots type s r)
  | some type =>
    cases item' with
    | none => exact absurd htext (hdots type r s)
    | some type' =>
      obtain ⟨hshown, hend⟩ := h type rfl type' (h' type' rfl) r s hr hs htext
      exact ⟨congrArg some hshown, hend⟩

/-- Lists of parameters are told apart in front of what closes them. -/
theorem legible_itemList (hclose : close ∈ [')', '>']) {items items' : List (Option TypeSig)}
    (h : ∀ type, some type ∈ items → type.TextTells)
    (h' : ∀ type, some type ∈ items' → type.WellFormed) :
    Legible itemList (List.map (Option.map TypeSig.vectorized)) (fun r => ∃ rest, r = close :: rest)
      items items' := by
  have hcomma : ∀ c ∈ [')', '>'], c ≠ ',' ∧ c ≠ '.' ∧ c ∈ [',', ')', '>'] := by simp
  obtain ⟨hne, hdot, hends⟩ := hcomma close hclose
  have hitem : ∀ (item : Option TypeSig) (r : List Char),
      ¬ ∃ rest, itemText item ++ r = close :: rest := by
    rintro item r ⟨rest, hrest⟩
    cases item with
    | none => exact hdot (List.cons.inj hrest).1.symm
    | some type =>
      obtain ⟨c, chars, hcons, hc⟩ := (type.beginsType_text_append r).exists_cons
      have hcclose : c = close := (List.cons.inj (hcons.symm.trans hrest)).1
      exact hc (hcclose ▸ List.mem_cons_of_mem _ hclose)
  refine Legible.separated ?_ (fun item _ => hitem item) (fun item _ => hitem item) ?_
  · rintro r ⟨rest, hrest⟩
    exact hne (List.cons.inj hrest).1.symm
  · intro item hitem item' hitem'
    have hlegible := legible_itemText (fun type hsome => h type (hsome ▸ hitem))
      (fun type hsome => h' type (hsome ▸ hitem'))
    refine hlegible.mono ?_
    rintro r (⟨rest, rfl⟩ | ⟨rest, rfl⟩)
    · exact .inr (.inl ⟨close, rest, rfl, hends⟩)
    · exact .inr (.inl ⟨',', ' ' :: rest, rfl, by decide⟩)

/-- What is shown among the parameters is one of them. -/
theorem mem_of_some_mem_paramItems {sentinel : Option Nat} {params : List TypeSig} {type : TypeSig}
    (h : some type ∈ MethodHeader.paramItems sentinel params) : type ∈ params := by
  rw [← MethodHeader.filterMap_paramItems sentinel params, List.mem_filterMap]
  exact ⟨some type, h, rfl⟩

/-- A list of parameters tells them and the place of the sentinel. -/
theorem paramItems_append_inj (hclose : close ∈ [')', '>']) {sentinel sentinel' : Option Nat}
    {params params' : List TypeSig}
    (hplace : ∀ index, sentinel = some index → index < params.length)
    (hplace' : ∀ index, sentinel' = some index → index < params'.length)
    (h : ∀ param ∈ params, param.TextTells) (h' : ∀ param ∈ params', param.WellFormed)
    (htext : itemList (MethodHeader.paramItems sentinel params) ++ close :: r =
      itemList (MethodHeader.paramItems sentinel' params') ++ close :: s) :
    (sentinel = sentinel' ∧ params.map TypeSig.vectorized = params'.map TypeSig.vectorized) ∧
      r = s := by
  have htells : ∀ type, some type ∈ MethodHeader.paramItems sentinel params → type.TextTells :=
    fun type hmem => h type (mem_of_some_mem_paramItems hmem)
  have htypes : ∀ type, some type ∈ MethodHeader.paramItems sentinel' params' → type.WellFormed :=
    fun type hmem => h' type (mem_of_some_mem_paramItems hmem)
  obtain ⟨hitems, hend⟩ := legible_itemList hclose htells htypes _ _ ⟨r, rfl⟩ ⟨s, rfl⟩ htext
  rw [MethodHeader.map_paramItems, MethodHeader.map_paramItems] at hitems
  refine ⟨MethodHeader.paramItems_injective ?_ ?_ hitems, (List.cons.inj hend).2⟩
  · simpa using hplace
  · simpa using hplace'

/-- A list of types tells them. -/
theorem types_append_inj (hclose : close ∈ [')', '>']) {types types' : List TypeSig}
    (h : ∀ type ∈ types, type.TextTells) (h' : ∀ type ∈ types', type.WellFormed)
    (htext : itemList (types.map some) ++ close :: r = itemList (types'.map some) ++ close :: s) :
    types.map TypeSig.vectorized = types'.map TypeSig.vectorized ∧ r = s := by
  have hnone : ∀ count index, (none : Option Nat) = some index → index < count := nofun
  obtain ⟨⟨_, htypes⟩, hend⟩ := paramItems_append_inj hclose (hnone _) (hnone _) h h' htext
  exact ⟨htypes, hend⟩

end TextSuffix

/-! ## Reading methods -/

namespace MethodHeader

open TextSuffix

/-- What stands between the result and the parameters. -/
def afterResult (header : MethodHeader) (mark : List Char) (r : List Char) : List Char :=
  (if header.generic then " <[".toList ++ (Nat.toDigits 10 header.arity ++ "]>".toList) else [])
    ++ ' ' :: (mark ++ '(' :: r)

/-- The parameters are shown in their order, with dots at the sentinel. -/
theorem toList_paramList (header : MethodHeader) (params : List TypeSig) :
    (header.paramList (TypeSig.texts params)).toList =
      itemList (paramItems header.sentinel params) := by
  unfold paramList fixedPart varArgPart
  cases header.sentinel with
  | none => exact toList_commaList params
  | some index =>
    simp [commaList, itemList, paramItems, TypeSig.texts_eq_map, itemText, Function.comp_def,
      ← List.map_take, ← List.map_drop]

/-- A method is shown as its keywords, its result and what stands behind that. -/
theorem toList_text (header : MethodHeader) (mark : String) (result : TypeSig)
    (params : List TypeSig) :
    (header.text mark result.text (TypeSig.texts params)).toList =
      header.keywords.toList ++ (result.text.toList ++ header.afterResult mark.toList
        (itemList (paramItems header.sentinel params) ++ [')'])) := by
  unfold text afterResult
  cases header.generic <;> simp [toList_paramList]

/-- The marks of a method signature and of a function pointer are told from generic parameters. -/
theorem afterResult_append_inj {header header' : MethodHeader} {count count' : Nat}
    (h : header.WellFormed count) (h' : header'.WellFormed count') {mark r s : List Char}
    (hmark : ∀ r, ∃ c rest, mark ++ '(' :: r = c :: rest ∧ c ∈ ['*', '('])
    (htext : header.afterResult mark r = header'.afterResult mark s) :
    (header.generic = header'.generic ∧ header.arity = header'.arity) ∧ r = s := by
  have hmarks : ∀ c ∈ ['*', '('], c ≠ '<' := by simp
  have hbracket : ∀ r, Stops Char.isDigit (']' :: r) := fun r => stops_cons.2 (by decide)
  have hplain : ∀ r rest : List Char, ' ' :: (mark ++ '(' :: r) ≠ ' ' :: '<' :: rest := by
    intro r rest heq
    obtain ⟨c, chars, hcons, hc⟩ := hmark r
    rw [hcons] at heq
    exact hmarks c hc (List.cons.inj (List.cons.inj heq).2).1
  unfold afterResult at htext
  cases hgeneric : header.generic with
  | false =>
    cases hgeneric' : header'.generic with
    | false =>
      rw [hgeneric, hgeneric'] at htext
      have hrest := List.append_cancel_left (List.cons.inj htext).2
      exact ⟨⟨rfl, (h.arity_eq_zero hgeneric).trans (h'.arity_eq_zero hgeneric').symm⟩,
        (List.cons.inj hrest).2⟩
    | true =>
      rw [hgeneric, hgeneric'] at htext
      exact absurd htext (hplain _ _)
  | true =>
    cases hgeneric' : header'.generic with
    | false =>
      rw [hgeneric, hgeneric'] at htext
      exact absurd htext.symm (hplain _ _)
    | true =>
      rw [hgeneric, hgeneric'] at htext
      have hdigits : Nat.toDigits 10 header.arity ++ (']' :: '>' :: ' ' :: (mark ++ '(' :: r)) =
          Nat.toDigits 10 header'.arity ++ (']' :: '>' :: ' ' :: (mark ++ '(' :: s)) := by
        simpa using htext
      obtain ⟨harity, hend⟩ := toDigits_append_inj (hbracket _) (hbracket _) hdigits
      have hmarks := (List.cons.inj (List.cons.inj (List.cons.inj hend).2).2).2
      have hrest := List.append_cancel_left hmarks
      exact ⟨⟨rfl, harity⟩, (List.cons.inj hrest).2⟩

/-- What stands behind the result of a method ends the text of a type. -/
theorem textEnds_afterResult (header : MethodHeader) {mark r : List Char}
    (hmark : ∀ r, ∃ c rest, mark ++ '(' :: r = c :: rest ∧ c ∈ ['*', '(']) :
    TextEnds (header.afterResult mark r) := by
  have hmarks : ∀ c ∈ ['*', '('], c ∈ ['<', '*', '('] := by simp
  unfold afterResult
  cases header.generic with
  | true => exact .inr (.inr ⟨'<', _, rfl, by decide⟩)
  | false =>
    obtain ⟨c, rest, hcons, hc⟩ := hmark r
    exact .inr (.inr ⟨c, rest, by rw [hcons]; rfl, hmarks c hc⟩)

end MethodHeader

namespace MethodSig

open TextSuffix MethodHeader

/-- A method is told by its text in front of anything, whether it has the mark of a function pointer
or none. -/
theorem text_append_inj (mark : String) (hmark : mark ∈ ["*", ""]) (method method' : MethodSig)
    (h : method.header.WellFormed method.params.length)
    (h' : method'.header.WellFormed method'.params.length)
    (htells : ∀ type ∈ method.result :: method.params, type.TextTells)
    (htypes : ∀ type ∈ method'.result :: method'.params, type.WellFormed) {r s : List Char}
    (htext :
      (method.header.text mark method.result.text (TypeSig.texts method.params)).toList ++ r =
        (method'.header.text mark method'.result.text (TypeSig.texts method'.params)).toList ++ s) :
    method.vectorized = method'.vectorized ∧ r = s := by
  have hmark : ∀ r, ∃ c rest, mark.toList ++ '(' :: r = c :: rest ∧ c ∈ ['*', '('] := by
    intro r
    rcases List.mem_cons.1 hmark with rfl | hmark
    · exact ⟨'*', _, rfl, by decide⟩
    · obtain rfl := List.mem_singleton.1 hmark
      exact ⟨'(', _, rfl, by decide⟩
  obtain ⟨header, result, params⟩ := method
  obtain ⟨header', result', params'⟩ := method'
  rw [List.forall_mem_cons] at htells htypes
  have hafter : ∀ (header : MethodHeader) (items r : List Char),
      header.afterResult mark.toList (items ++ [')']) ++ r =
        header.afterResult mark.toList (items ++ ')' :: r) := by
    intro header items r
    simp [afterResult]
  rw [toList_text, toList_text] at htext
  simp only [List.append_assoc, hafter] at htext
  -- from the left: the keywords, the result, the generic parameters, the parameters
  obtain ⟨⟨hconvention, hthis, hexplicit⟩, htext⟩ := keywords_append_inj
    (result.beginsType_text_append _) (result'.beginsType_text_append _) htext
  obtain ⟨hresult, htext⟩ := htells.1 result' htypes.1 _ _ (textEnds_afterResult header hmark)
    (textEnds_afterResult header' hmark) htext
  obtain ⟨⟨hgeneric, harity⟩, htext⟩ := afterResult_append_inj h h' hmark htext
  obtain ⟨⟨hsentinel, hparams⟩, hend⟩ := paramItems_append_inj (by decide)
    (fun index hindex => (h.sentinel_lt index hindex).2)
    (fun index hindex => (h'.sentinel_lt index hindex).2) htells.2 htypes.2 htext
  have hheader : header = header' := by
    obtain ⟨convention, hasThis, explicitThis, generic, arity, sentinel⟩ := header
    dsimp only at *
    subst hconvention hthis hexplicit hgeneric harity hsentinel
    rfl
  refine ⟨?_, hend⟩
  simp only [vectorized, TypeSig.vectorizedEach_eq_map]
  rw [hheader, hresult, hparams]

end MethodSig

/-! ## Reading types -/

namespace TypeSig

/-- The core is told from all well-formed ones. -/
def CoreTells (type : TypeSig) : Prop :=
  ∀ other : TypeSig, other.IsCore → other.WellFormed →
    Legible (fun type => type.text.toList) vectorized (Stops Char.isDigit) type other

/-- A core is told from others if, where it is a function pointer, the types in it are. -/
theorem coreTells_of_children {type : TypeSig} (hcore : type.IsCore) (h : type.WellFormed)
    (htells : ∀ child ∈ type.children, child.TextTells) : type.CoreTells := by
  intro other hother hwell r s hr hs htext
  obtain ⟨front, hfront⟩ := hcore.exists_text_eq
  obtain ⟨front', hfront'⟩ := hother.exists_text_eq
  -- the first words leave only cores of one kind to be compared
  have hwords : type.openingWord.toList ++ (front ++ r) =
      other.openingWord.toList ++ (front' ++ s) := by
    rw [← List.append_assoc, ← List.append_assoc, ← hfront, ← hfront']
    exact htext
  obtain ⟨hword, _⟩ := prefixFree_words.append_inj
    (List.mem_append_right _ type.openingWord_mem) (List.mem_append_right _ other.openingWord_mem)
    hwords
  have hkeyword : ∀ (kind : Primitive), kind.keyword ≠ "class " ∧ kind.keyword ≠ "valuetype " ∧
      kind.keyword ≠ "!" ∧ kind.keyword ≠ "method " := by
    intro kind
    simpa using openingWord_primitive_ne kind
  cases type with
  | primitive kind =>
    cases other with
    | primitive kind' =>
      obtain rfl := keyword_injective hword
      exact ⟨rfl, List.append_cancel_left htext⟩
    | classType => exact absurd hword (hkeyword kind).1
    | valueType => exact absurd hword (hkeyword kind).2.1
    | genericParam => exact absurd hword (hkeyword kind).2.2.1
    | functionPointer => exact absurd hword (hkeyword kind).2.2.2
    | _ => exact hother.elim
  | classType token =>
    cases other with
    | primitive kind => exact absurd hword.symm (hkeyword kind).1
    | classType token' =>
      have htoken : token.text.toList ++ r = token'.text.toList ++ s := by simpa [text] using htext
      obtain ⟨rfl, hend⟩ := Token.text_append_inj htoken
      exact ⟨rfl, hend⟩
    | valueType | genericParam | functionPointer => simp [openingWord] at hword
    | _ => exact hother.elim
  | valueType token =>
    cases other with
    | primitive kind => exact absurd hword.symm (hkeyword kind).2.1
    | valueType token' =>
      have htoken : token.text.toList ++ r = token'.text.toList ++ s := by simpa [text] using htext
      obtain ⟨rfl, hend⟩ := Token.text_append_inj htoken
      exact ⟨rfl, hend⟩
    | classType | genericParam | functionPointer => simp [openingWord] at hword
    | _ => exact hother.elim
  | genericParam index ofMethod =>
    cases other with
    | primitive kind => exact absurd hword.symm (hkeyword kind).2.2.1
    | genericParam index' ofMethod' =>
      obtain ⟨⟨rfl, rfl⟩, hend⟩ := param_append_inj hr hs htext
      exact ⟨rfl, hend⟩
    | classType | valueType | functionPointer => simp [openingWord] at hword
    | _ => exact hother.elim
  | functionPointer header result params =>
    cases other with
    | primitive kind => exact absurd hword.symm (hkeyword kind).2.2.2
    | functionPointer header' result' params' =>
      obtain ⟨root, _⟩ := h
      obtain ⟨root', hchildren'⟩ := hwell
      have hmethod : (header.text "*" result.text (texts params)).toList ++ r =
          (header'.text "*" result'.text (texts params')).toList ++ s := by
        simpa [text] using htext
      obtain ⟨hshown, hend⟩ := MethodSig.text_append_inj "*" (by decide)
        ⟨header, result, params⟩ ⟨header', result', params'⟩ root root' htells hchildren' hmethod
      exact ⟨congrArg MethodSig.pointer hshown, hend⟩
    | classType | valueType | genericParam => simp [openingWord] at hword
    | _ => exact hother.elim
  | _ => exact hcore.elim

end TypeSig

namespace TextSuffix

/-- The arrays and the arguments in the suffix are well formed. -/
def WellFormed : TextSuffix → Prop
  | brackets shape => shape.WellFormed
  | arguments args => ∀ arg ∈ args, arg.WellFormed
  | _ => True

/-- The suffix is told from all well-formed ones in front of anything. -/
def Tells (suffix : TextSuffix) : Prop :=
  ∀ other : TextSuffix, other.WellFormed → Legible text apply (fun _ => True) suffix other

/-- The shape of an array is told from all other suffixes. -/
theorem tells_brackets {shape : ArrayShape} (h : shape.WellFormed) : (brackets shape).Tells := by
  intro other hother r s _ _ htext
  have hmark := mark_eq_of_text_append_eq htext
  cases other with
  | brackets shape' =>
    obtain ⟨rfl, hend⟩ := ArrayShape.text_append_inj h hother htext
    exact ⟨rfl, hend⟩
  | _ => simp [mark] at hmark

/-- The star of a pointer is told from all other suffixes. -/
theorem tells_pointer : pointer.Tells := by
  intro other _ r s _ _ htext
  have hmark := mark_eq_of_text_append_eq htext
  cases other with
  | pointer => exact ⟨rfl, List.append_cancel_left htext⟩
  | _ => simp [mark] at hmark

/-- The mark of a reference is told from all other suffixes. -/
theorem tells_byRef : byRef.Tells := by
  intro other _ r s _ _ htext
  have hmark := mark_eq_of_text_append_eq htext
  cases other with
  | byRef => exact ⟨rfl, List.append_cancel_left htext⟩
  | _ => simp [mark] at hmark

/-- Type arguments are told from all other suffixes if each of them is told by its text. -/
theorem tells_arguments {args : List TypeSig} (h : ∀ arg ∈ args, arg.TextTells) :
    (arguments args).Tells := by
  intro other hother r s _ _ htext
  have hmark := mark_eq_of_text_append_eq htext
  cases other with
  | arguments args' =>
    have hclosed : itemList (args.map some) ++ '>' :: r =
        itemList (args'.map some) ++ '>' :: s := by
      simpa [text] using htext
    obtain ⟨hshown, hend⟩ := types_append_inj (by decide) h hother hclosed
    refine ⟨?_, hend⟩
    funext type
    cases type <;> simp [apply, hshown]
  | _ => simp [mark] at hmark

/-- A modifier is told with its token and whether it is required. -/
theorem tells_modifier (token : Token) (required : Bool) : (modifier token required).Tells := by
  have hwords : PrefixFree [" modreq(", " modopt("] := by decide
  have hmem : ∀ required : Bool,
      (if required then " modreq(" else " modopt(") ∈ [" modreq(", " modopt("] := by
    decide
  intro other _ r s _ _ htext
  have hmark := mark_eq_of_text_append_eq htext
  cases other with
  | modifier token' required' =>
    simp only [text, List.append_assoc] at htext
    obtain ⟨hword, htokens⟩ := hwords.append_inj (hmem required) (hmem required') htext
    obtain ⟨rfl, hend⟩ := Token.text_append_inj htokens
    have hrequired : required = required' := by
      revert hword
      cases required <;> cases required' <;> decide
    rw [hrequired]
    exact ⟨rfl, List.append_cancel_left hend⟩
  | _ => simp [mark] at hmark

/-- The word for pinning is told from all other suffixes. -/
theorem tells_pinned : pinned.Tells := by
  intro other _ r s _ _ htext
  have hmark := mark_eq_of_text_append_eq htext
  cases other with
  | pinned => exact ⟨rfl, List.append_cancel_left htext⟩
  | _ => simp [mark] at hmark

end TextSuffix

namespace TypeSig

/-- A well-formed type adds nothing but well-formed suffixes. -/
theorem wellFormed_of_mem_textSuffixes {type : TypeSig} (h : type.WellFormed) :
    ∀ suffix ∈ type.textSuffixes, suffix.WellFormed := by
  induction type using induction_on_children with
  | step type ih =>
    obtain ⟨root, hchildren⟩ := h
    have hinner : ∀ child ∈ type.children, ∀ suffix ∈ child.textSuffixes, suffix.WellFormed :=
      fun child hchild => ih child hchild (hchildren child hchild)
    cases type with
    | primitive | classType | valueType | genericParam | functionPointer => simp [textSuffixes]
    | instantiation base isValueType args =>
      simp only [textSuffixes, List.forall_mem_singleton]
      exact hchildren
    | vector inner =>
      simp only [textSuffixes, List.forall_mem_append, List.forall_mem_singleton]
      exact ⟨hinner inner (by simp [children]), ArrayShape.wellFormed_vector⟩
    | array inner shape =>
      simp only [textSuffixes, List.forall_mem_append, List.forall_mem_singleton]
      exact ⟨hinner inner (by simp [children]), root⟩
    | pointer inner | byRef inner | modified _ _ inner | pinned inner =>
      simp only [textSuffixes, List.forall_mem_append, List.forall_mem_singleton]
      exact ⟨hinner inner (by simp [children]), trivial⟩

/-- A text is told from others if its core and each of its suffixes are. -/
theorem textTells_of_parts {type : TypeSig} (hcore : type.core.CoreTells)
    (hsuffixes : ∀ suffix ∈ type.textSuffixes, suffix.Tells) : type.TextTells := by
  have hstop : ∀ (suffixes : List TextSuffix) (r : List Char), TextEnds r →
      Stops Char.isDigit (suffixes.flatMap TextSuffix.text ++ r) := by
    intro suffixes r hr
    cases suffixes with
    | nil => exact hr.stops
    | cons suffix suffixes =>
      rw [List.flatMap_cons, List.append_assoc]
      exact suffix.stops_text_append _
  intro other hother r s hr hs htext
  dsimp only at htext
  rw [toList_text type, toList_text other, List.append_assoc, List.append_assoc] at htext
  obtain ⟨hshown, hrest⟩ := hcore other.core other.isCore_core (wellFormed_core hother) _ _
    (hstop _ r hr) (hstop _ s hs) htext
  have hpieces : Legible (List.flatMap TextSuffix.text) (List.map TextSuffix.apply) TextEnds
      type.textSuffixes other.textSuffixes := by
    refine Legible.flatMap (fun _ => True) (fun _ _ => trivial) (fun _ _ => trivial)
      (fun suffix _ => suffix.not_textEnds_text_append)
      (fun suffix _ => suffix.not_textEnds_text_append) ?_
    intro suffix hsuffix suffix' hsuffix'
    exact hsuffixes suffix hsuffix suffix' (wellFormed_of_mem_textSuffixes hother suffix' hsuffix')
  obtain ⟨happly, hend⟩ := hpieces r s hr hs hrest
  refine ⟨?_, hend⟩
  rw [vectorized_eq_foldl type, vectorized_eq_foldl other, hshown, foldl_eq_of_map_eq happly]

/-- The text of a well-formed type is told from the texts of all others. -/
theorem textTells {type : TypeSig} (h : type.WellFormed) : type.TextTells := by
  -- the core and the suffixes of a type are those of the type in it and what the type itself adds
  suffices hparts : type.core.CoreTells ∧ ∀ suffix ∈ type.textSuffixes, suffix.Tells from
    textTells_of_parts hparts.1 hparts.2
  induction type using induction_on_children with
  | step type ih =>
    obtain ⟨root, hchildren⟩ := id h
    have hinner : ∀ child ∈ type.children,
        child.core.CoreTells ∧ ∀ suffix ∈ child.textSuffixes, suffix.Tells :=
      fun child hchild => ih child hchild (hchildren child hchild)
    have htexts : ∀ child ∈ type.children, child.TextTells := fun child hchild =>
      textTells_of_parts (hinner child hchild).1 (hinner child hchild).2
    have hsuffix : ∀ inner ∈ type.children, ∀ suffix : TextSuffix, suffix.Tells →
        ∀ each ∈ inner.textSuffixes ++ [suffix], each.Tells := by
      intro inner hmem suffix htells
      rw [List.forall_mem_append, List.forall_mem_singleton]
      exact ⟨(hinner inner hmem).2, htells⟩
    cases type with
    | primitive | classType | valueType | genericParam | functionPointer =>
      exact ⟨coreTells_of_children trivial h htexts, by simp [textSuffixes]⟩
    | instantiation base isValueType args =>
      refine ⟨coreTells_of_children (isCore_core _) (wellFormed_core h) ?_, ?_⟩
      · cases isValueType <;> simp [core, children]
      · simp only [textSuffixes, List.forall_mem_singleton]
        exact TextSuffix.tells_arguments htexts
    | vector inner =>
      have hmem : inner ∈ (vector inner).children := List.mem_singleton_self _
      exact ⟨(hinner inner hmem).1,
        hsuffix inner hmem _ (TextSuffix.tells_brackets ArrayShape.wellFormed_vector)⟩
    | array inner shape =>
      have hmem : inner ∈ (array inner shape).children := List.mem_singleton_self _
      exact ⟨(hinner inner hmem).1, hsuffix inner hmem _ (TextSuffix.tells_brackets root)⟩
    | pointer inner =>
      have hmem : inner ∈ (pointer inner).children := List.mem_singleton_self _
      exact ⟨(hinner inner hmem).1, hsuffix inner hmem _ TextSuffix.tells_pointer⟩
    | byRef inner =>
      have hmem : inner ∈ (byRef inner).children := List.mem_singleton_self _
      exact ⟨(hinner inner hmem).1, hsuffix inner hmem _ TextSuffix.tells_byRef⟩
    | modified modifier required inner =>
      have hmem : inner ∈ (modified modifier required inner).children := List.mem_singleton_self _
      exact ⟨(hinner inner hmem).1,
        hsuffix inner hmem _ (TextSuffix.tells_modifier modifier required)⟩
    | pinned inner =>
      have hmem : inner ∈ (pinned inner).children := List.mem_singleton_self _
      exact ⟨(hinner inner hmem).1, hsuffix inner hmem _ TextSuffix.tells_pinned⟩

end TypeSig

/-! ## Reading signatures -/

/-- The signature can be read as one of the kind from some blob. -/
def Signature.Returned (kind : SignatureKind) (signature : Signature) : Prop :=
  ∃ options start stop, (Signature.decode options kind).run start = .ok signature stop

namespace Signature

open TypeSig TextSuffix

/-- A signature that is read from some blob is well-formed. -/
theorem Returned.wellFormed {kind : SignatureKind} {signature : Signature}
    (h : signature.Returned kind) : signature.WellFormed := by
  obtain ⟨options, start, stop, hrun⟩ := h
  exact wellFormed_of_run_decode hrun

/-- A signature is read as one of its own kind. -/
theorem Returned.kind_eq {kind : SignatureKind} {signature : Signature}
    (h : signature.Returned kind) : signature.kind = kind := by
  obtain ⟨options, start, stop, hrun⟩ := h
  obtain ⟨⟨_, ⟨hkind, _⟩, _⟩, _⟩ := run_decode_eq_ok_iff.1 hrun
  exact hkind

/-- A signature keeps its text when arrays are made vectors. -/
theorem text_vectorized (signature : Signature) : signature.vectorized.text = signature.text := by
  have heach : ∀ types : List TypeSig, texts (vectorizedEach types) = texts types := by
    intro types
    rw [texts_eq_map, texts_eq_map, vectorizedEach_eq_map, List.map_map]
    exact List.map_congr_left fun type _ => type.text_vectorized
  cases signature <;>
    simp [vectorized, text, MethodSig.text, MethodSig.vectorized, heach, TypeSig.text_vectorized]

/-- A property has the text of a method without generic parameters and without a sentinel. -/
theorem text_property (hasThis : Bool) (type : TypeSig) (params : List TypeSig) :
    (property hasThis type params).text = MethodSig.text ⟨{ hasThis }, type, params⟩ := by
  have hopen : " " ++ "(" = " (" := by decide
  simp [text, MethodSig.text, MethodHeader.text, MethodHeader.keywords, MethodHeader.paramList,
    ← hopen, String.append_assoc]

/-- Methods are told by their texts. -/
theorem method_eq_of_text_eq {method method' : MethodSig}
    (h : method.header.WellFormed method.params.length)
    (h' : method'.header.WellFormed method'.params.length)
    (htypes : ∀ type ∈ method.result :: method.params, type.WellFormed)
    (htypes' : ∀ type ∈ method'.result :: method'.params, type.WellFormed)
    (htext : method.text = method'.text) : method.vectorized = method'.vectorized := by
  have hlist := congrArg String.toList htext
  have hinj := MethodSig.text_append_inj "" (by decide) method method' h h'
    (fun type hmem => textTells (htypes type hmem)) htypes' (r := []) (s := [])
  exact (hinj (by rw [List.append_nil, List.append_nil]; exact hlist)).1

/-- Types are told by their texts. -/
theorem type_eq_of_text_eq {type type' : TypeSig} (h : type.WellFormed) (h' : type'.WellFormed)
    (htext : type.text = type'.text) : type.vectorized = type'.vectorized := by
  have htells := textTells h type' h' [] [] (.inl rfl) (.inl rfl)
  exact (htells (by simp only [htext])).1

/-- Lists of types are told by their texts in front of what closes them. -/
theorem types_eq_of_text_eq (close : Char) (hclose : close ∈ [')', '>'])
    {types types' : List TypeSig} (h : ∀ type ∈ types, type.WellFormed)
    (h' : ∀ type ∈ types', type.WellFormed)
    (htext : (commaList (texts types)).toList ++ [close] =
      (commaList (texts types')).toList ++ [close]) :
    vectorizedEach types = vectorizedEach types' := by
  rw [toList_commaList, toList_commaList] at htext
  rw [vectorizedEach_eq_map, vectorizedEach_eq_map]
  exact (types_append_inj hclose (fun type hmem => textTells (h type hmem)) h' htext).1

/-- Well-formed signatures of a kind are told by their texts. -/
theorem vectorized_eq_of_text_eq {signature other : Signature} (h : signature.WellFormed)
    (h' : other.WellFormed) (hkind : signature.kind = other.kind)
    (htext : signature.text = other.text) : signature.vectorized = other.vectorized := by
  obtain ⟨root, htypes⟩ := h
  obtain ⟨root', htypes'⟩ := h'
  cases signature with
  | method m =>
    cases other with
    | method m' =>
      rw [types_method] at htypes htypes'
      exact congrArg method (method_eq_of_text_eq root root' htypes htypes' htext)
    | _ => cases hkind
  | field type =>
    cases other with
    | field type' =>
      have htype : type.text = type'.text := by simpa [text] using htext
      exact congrArg field (type_eq_of_text_eq (htypes type List.mem_cons_self)
        (htypes' type' List.mem_cons_self) htype)
    | _ => cases hkind
  | property hasThis type params =>
    cases other with
    | property hasThis' type' params' =>
      rw [types_property] at htypes htypes'
      rw [text_property, text_property] at htext
      -- a property has the text of a method, and the two are told as methods
      have hheader : ∀ {hasThis : Bool} {params : List TypeSig},
          params.length ≤ CompressedInt.maxUnsigned →
            ({ hasThis } : MethodHeader).WellFormed params.length :=
        fun hle => ⟨nofun, fun _ => rfl, nofun, hle, nofun⟩
      have hmethod := method_eq_of_text_eq (hheader root) (hheader root') htypes htypes' htext
      simp only [MethodSig.vectorized, MethodSig.mk.injEq, MethodHeader.mk.injEq] at hmethod
      simp only [vectorized]
      rw [hmethod.1.2.1, hmethod.2.1, hmethod.2.2]
    | _ => cases hkind
  | locals types =>
    cases other with
    | locals types' =>
      rw [types_locals] at htypes htypes'
      refine congrArg locals (types_eq_of_text_eq ')' (by decide) htypes htypes' ?_)
      rw [← String.toList_inj] at htext
      simpa [text] using htext
    | _ => cases hkind
  | typeSpec type =>
    cases other with
    | typeSpec type' =>
      exact congrArg typeSpec (type_eq_of_text_eq (htypes type List.mem_cons_self)
        (htypes' type' List.mem_cons_self) htext)
    | _ => cases hkind
  | methodSpec args =>
    cases other with
    | methodSpec args' =>
      rw [types_methodSpec] at htypes htypes'
      refine congrArg methodSpec (types_eq_of_text_eq '>' (by decide) htypes htypes' ?_)
      rw [← String.toList_inj] at htext
      simpa [text] using htext
    | _ => cases hkind

/-- Signatures of a kind that are read have the same text exactly if they are the same once each
general array of one dimension without bounds, at whatever depth, is made a vector. -/
theorem text_eq_iff_vectorized_eq {kind : SignatureKind} {signature other : Signature}
    (h : signature.Returned kind) (hother : other.Returned kind) :
    signature.text = other.text ↔ signature.vectorized = other.vectorized := by
  constructor
  · intro htext
    exact vectorized_eq_of_text_eq h.wellFormed hother.wellFormed
      (h.kind_eq.trans hother.kind_eq.symm) htext
  · intro hvectorized
    rw [← text_vectorized signature, ← text_vectorized other, hvectorized]

/-- A vector of arrays and an array of vectors, which have one text, and an array with a lower
bound, which has another. -/
theorem text_eq_iff_vectorized_eq_nested :
    (field (.pointer (.array (.vector (.primitive .int32)) ⟨1, [], []⟩))).Returned .field ∧
    (field (.pointer (.vector (.array (.primitive .int32) ⟨1, [], []⟩)))).Returned .field ∧
    (field (.pointer (.vector (.array (.primitive .int32) ⟨1, [], [0]⟩)))).Returned .field ∧
    (field (.pointer (.array (.vector (.primitive .int32)) ⟨1, [], []⟩))).text =
      (field (.pointer (.vector (.array (.primitive .int32) ⟨1, [], []⟩)))).text ∧
    (field (.pointer (.vector (.array (.primitive .int32) ⟨1, [], []⟩)))).text ≠
      (field (.pointer (.vector (.array (.primitive .int32) ⟨1, [], [0]⟩)))).text := by
  have harray : (field (.pointer (.array (.vector (.primitive .int32)) ⟨1, [], []⟩))).Returned
      .field :=
    ⟨⟨4, true⟩, .start [0x06, 0x0F, 0x14, 0x1D, 0x08, 0x01, 0x00, 0x00], _, rfl⟩
  have hvector : (field (.pointer (.vector (.array (.primitive .int32) ⟨1, [], []⟩)))).Returned
      .field :=
    ⟨⟨4, true⟩, .start [0x06, 0x0F, 0x1D, 0x14, 0x08, 0x01, 0x00, 0x00], _, rfl⟩
  have hbound : (field (.pointer (.vector (.array (.primitive .int32) ⟨1, [], [0]⟩)))).Returned
      .field :=
    ⟨⟨4, true⟩, .start [0x06, 0x0F, 0x1D, 0x14, 0x08, 0x01, 0x00, 0x01, 0x00], _, rfl⟩
  refine ⟨harray, hvector, hbound, ?_, ?_⟩
  · exact (text_eq_iff_vectorized_eq harray hvector).2 (by decide)
  · exact mt (text_eq_iff_vectorized_eq hvector hbound).1 (by decide)

end Signature

end SignatureBlob
