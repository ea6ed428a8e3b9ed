import SignatureBlob.Proofs.Legibility
import SignatureBlob.Proofs.RoundTrip
import SignatureBlob.TypeSig.Name

/-!
# Reading names

The name of a type tells the type up to what names leave out: modifiers and pinning, whether a token
is a class or a value type, the bounds of arrays, and all of a function pointer but its types. For
this the names of tokens have to be told from each other, from those of primitive types, and from
the marks that names are put together with.

A name begins with a stem, which holds no type, and each type around the stem adds a suffix. The
suffixes with types in them are read by induction; the rest is a matter of the first characters.

Main definitions: `TypeSig.erased` and `TokenNames.Plain`. Main statement:
`MethodSig.parameterNames_eq_iff_erased` (names are equal where types are equal once erased).
-/

namespace SignatureBlob

/-! ## What names show -/

namespace TypeSig

mutual

/-- The type without what its name leaves out. -/
def erased : TypeSig → TypeSig
  | primitive kind => primitive kind
  | classType token | valueType token => classType token
  | vector element => vector (erased element)
  | array element shape => array (erased element) ⟨shape.rank, [], []⟩
  | pointer target => pointer (erased target)
  | byRef target => byRef (erased target)
  | genericParam index ofMethod => genericParam index ofMethod
  | instantiation base _ args => instantiation base false (erasedEach args)
  | functionPointer _ result params => functionPointer {} (erased result) (erasedEach params)
  | modified _ _ inner => erased inner
  | pinned inner => erased inner

/-- Each of some types without what its name leaves out. -/
def erasedEach : List TypeSig → List TypeSig
  | [] => []
  | type :: types => erased type :: erasedEach types

end

/-- The types of a list are erased one by one. -/
theorem erasedEach_eq_map (types : List TypeSig) : erasedEach types = types.map erased := by
  induction types with
  | nil => rfl
  | cons type types ih => simp [erasedEach, ih]

/-- The number of dimensions of an array, zero for a vector. -/
def dimensions? : TypeSig → Option Nat
  | vector _ => some 0
  | array _ shape => some shape.rank
  | _ => none

/-- Erasing keeps the number of dimensions of an array, and finds it below modifiers. -/
theorem dimensions?_erased (type : TypeSig) :
    type.erased.dimensions? = type.unmodified.dimensions? := by
  induction type using induction_on_children with
  | step type ih =>
    cases type with
    | modified modifier required inner =>
      have hinner := ih inner (by simp [children])
      simpa [erased, unmodified] using hinner
    | pinned inner =>
      have hinner := ih inner (by simp [children])
      simpa [erased, unmodified] using hinner
    | _ => simp [erased, unmodified, dimensions?]

end TypeSig

/-! ## Names of tokens -/

namespace TokenNames

/-- The marks that names are put together with. -/
def marks : List Char := [',', '[', ']', '*', '&', '(', ')', '!', ' ']

/-- Whether a character is none of the marks. -/
def isPlain (c : Char) : Bool := !marks.contains c

/-- The names of tokens are told from each other, from primitive types and from the marks. -/
structure Plain (resolve : TokenNames) : Prop where
  nonempty : ∀ token, resolve.nameOf token ≠ ""
  injective : ∀ token other, resolve.nameOf token = resolve.nameOf other → token = other
  ne_systemName : ∀ token kind, resolve.nameOf token ≠ Primitive.systemName kind
  not_mark : ∀ token, ∀ c ∈ (resolve.nameOf token).toList, c ∉ marks

/-- The name of a primitive type has none of the marks. -/
theorem isPlain_systemName (kind : Primitive) :
    ∀ c ∈ kind.systemName.toList, isPlain c = true := by
  rw [← List.all_eq_true]
  cases kind <;> decide

/-- No primitive type has an empty name. -/
theorem systemName_ne_nil (kind : Primitive) : kind.systemName.toList ≠ [] := by
  cases kind <;> decide

/-- Primitive types are told from each other by their names. -/
theorem systemName_injective {kind other : Primitive}
    (h : kind.systemName = other.systemName) : kind = other := by
  have hall : ∀ kind ∈ Primitive.all, ∀ other ∈ Primitive.all,
      kind.systemName = other.systemName → kind = other := by
    decide
  exact hall kind (Primitive.mem_all kind) other (Primitive.mem_all other) h

/-- A digit is none of the marks. -/
theorem isPlain_of_isDigit {c : Char} (h : c.isDigit = true) : isPlain c = true := by
  have hmarks : ∀ mark ∈ marks, mark.isDigit = false := by simp [marks]
  unfold isPlain
  simp only [Bool.not_eq_true', List.contains_eq_mem, decide_eq_false_iff_not]
  intro hmem
  exact absurd ((hmarks c hmem).symm.trans h) Bool.false_ne_true

/-- What stops plain characters stops digits too. -/
theorem stops_isDigit {r : List Char} (h : Stops isPlain r) : Stops Char.isDigit r := by
  intro c hc
  cases hdigit : c.isDigit with
  | false => rfl
  | true => exact absurd ((h c hc).symm.trans (isPlain_of_isDigit hdigit)) Bool.false_ne_true

end TokenNames

open TokenNames

/-! ## Stems and suffixes -/

/-- What a type adds behind the name of a type in it. A vector counts as an array without
dimensions. -/
inductive NameSuffix where
  | brackets (dimensions : Nat)
  | pointer
  | byRef
  | arguments (args : List TypeSig)
  | signature (params : List TypeSig)

namespace TypeSig

/-- The type at the beginning of the name. -/
def stem : TypeSig → TypeSig
  | primitive kind => primitive kind
  | classType token | valueType token => classType token
  | genericParam index ofMethod => genericParam index ofMethod
  | instantiation base _ _ => classType base
  | vector inner | array inner _ | pointer inner | byRef inner => stem inner
  | functionPointer _ result _ => stem result
  | modified _ _ inner | pinned inner => stem inner

/-- What stands behind the stem, the innermost first. -/
def suffixes : TypeSig → List NameSuffix
  | primitive _ | classType _ | valueType _ | genericParam _ _ => []
  | instantiation _ _ args => [.arguments args]
  | vector element => suffixes element ++ [.brackets 0]
  | array element shape => suffixes element ++ [.brackets shape.rank]
  | pointer target => suffixes target ++ [.pointer]
  | byRef target => suffixes target ++ [.byRef]
  | functionPointer _ result params => suffixes result ++ [.signature params]
  | modified _ _ inner | pinned inner => suffixes inner

/-- Whether a type is one that a name can begin with. -/
def IsStem : TypeSig → Prop
  | primitive _ | classType _ | genericParam _ _ => True
  | _ => False

/-- The stem of a type is one that a name can begin with. -/
theorem isStem_stem (type : TypeSig) : type.stem.IsStem := by
  induction type using induction_on_children with
  | step type ih =>
    cases type with
    | primitive | classType | valueType | genericParam | instantiation => trivial
    | vector inner | array inner | pointer inner | byRef inner | modified _ _ inner
    | pinned inner => exact ih inner (by simp [children])
    | functionPointer header result params => exact ih result (by simp [children])

end TypeSig

namespace NameSuffix

/-- What stands between the brackets of an array. -/
def inside : Nat → List Char
  | 0 => []
  | 1 => ['*']
  | dimensions + 2 => List.replicate (dimensions + 1) ','

/-- The names of some types with commas between them. -/
def nameList (resolve : TokenNames) (types : List TypeSig) : List Char :=
  [','].intercalate (types.map fun type => (type.name resolve).toList)

/-- The suffix as it stands in a name. -/
def text (resolve : TokenNames) : NameSuffix → List Char
  | brackets dimensions => '[' :: (inside dimensions ++ [']'])
  | pointer => ['*']
  | byRef => ['&']
  | arguments args => '[' :: (nameList resolve args ++ [']'])
  | signature params => ' ' :: '*' :: '(' :: (nameList resolve params ++ [')'])

/-- The type with the suffix behind its name. -/
def apply : NameSuffix → TypeSig → TypeSig
  | brackets 0, type => .vector type
  | brackets (rank + 1), type => .array type ⟨rank + 1, [], []⟩
  | pointer, type => .pointer type
  | byRef, type => .byRef type
  | arguments args, .classType base => .instantiation base false (args.map TypeSig.erased)
  | arguments _, type => type
  | signature params, type => .functionPointer {} type (params.map TypeSig.erased)

/-- The shape of an array is named as its number of dimensions in brackets. -/
theorem toList_shape_name (shape : ArrayShape) :
    shape.name.toList = '[' :: (inside shape.rank ++ [']']) := by
  unfold ArrayShape.name
  by_cases hone : shape.rank = 1
  · simp [hone, inside]
  · rw [if_neg hone]
    match hrank : shape.rank with
    | 0 => simp [inside]
    | 1 => exact absurd hrank hone
    | rank + 2 => simp [inside]

/-- The names of some types with commas between them are the list of their names. -/
theorem toList_names (resolve : TokenNames) (types : List TypeSig) :
    [','].intercalate ((TypeSig.names resolve types).map String.toList) =
      nameList resolve types := by
  rw [TypeSig.names_eq_map, List.map_map]
  rfl

end NameSuffix

namespace TypeSig

open NameSuffix

/-- A name is its stem and the suffixes behind it. -/
theorem toList_name (resolve : TokenNames) (type : TypeSig) :
    (type.name resolve).toList =
      (type.stem.name resolve).toList ++ type.suffixes.flatMap (NameSuffix.text resolve) := by
  induction type using induction_on_children with
  | step type ih =>
    cases type with
    | primitive | classType | valueType | genericParam => simp [stem, suffixes, name]
    | instantiation base isValueType args =>
      simp [stem, suffixes, name, toList_names, NameSuffix.text]
    | vector inner =>
      simp [stem, suffixes, name, ih inner (by simp [children]), NameSuffix.text, inside]
    | array inner shape =>
      simp [stem, suffixes, name, ih inner (by simp [children]), NameSuffix.text,
        toList_shape_name]
    | pointer inner | byRef inner =>
      simp [stem, suffixes, name, ih inner (by simp [children]), NameSuffix.text]
    | functionPointer header result params =>
      simp [stem, suffixes, name, ih result (by simp [children]), NameSuffix.text, toList_names]
    | modified _ _ inner | pinned inner =>
      simp [stem, suffixes, name, ih inner (by simp [children])]

/-- What a name shows is its stem with the suffixes put to it. -/
theorem erased_eq_foldl {type : TypeSig} (h : type.WellFormed) :
    type.erased = type.suffixes.foldl (fun type suffix => suffix.apply type) type.stem := by
  induction type using induction_on_children with
  | step type ih =>
    obtain ⟨root, hchildren⟩ := h
    cases type with
    | primitive | classType | valueType | genericParam => rfl
    | instantiation base isValueType args =>
      simp [erased, suffixes, stem, apply, erasedEach_eq_map]
    | vector inner =>
      have hinner := ih inner (by simp [children]) (hchildren inner (by simp [children]))
      simp [erased, suffixes, stem, apply, hinner]
    | array inner shape =>
      have hinner := ih inner (by simp [children]) (hchildren inner (by simp [children]))
      obtain ⟨rank, hrank⟩ := Nat.exists_eq_succ_of_ne_zero (Nat.ne_of_gt root.rank_pos)
      simp [erased, suffixes, stem, hrank, apply, hinner]
    | pointer inner | byRef inner =>
      have hinner := ih inner (by simp [children]) (hchildren inner (by simp [children]))
      simp [erased, suffixes, stem, apply, hinner]
    | functionPointer header result params =>
      have hresult := ih result (by simp [children]) (hchildren result (by simp [children]))
      simp [erased, suffixes, stem, apply, hresult, erasedEach_eq_map]
    | modified _ _ inner | pinned inner =>
      have hinner := ih inner (by simp [children]) (hchildren inner (by simp [children]))
      simp [erased, suffixes, stem, hinner]

end TypeSig

/-! ## Reading stems -/

namespace TypeSig

variable {resolve : TokenNames}

/-- A stem is a run of plain characters or begins with the mark of a generic parameter. -/
theorem IsStem.plain_or_param (hresolve : resolve.Plain) {type : TypeSig} (h : type.IsStem) :
    ((type.name resolve).toList ≠ [] ∧ ∀ c ∈ (type.name resolve).toList, isPlain c = true) ∨
      ∃ index ofMethod, type = genericParam index ofMethod := by
  cases type with
  | primitive kind => exact .inl ⟨systemName_ne_nil kind, isPlain_systemName kind⟩
  | classType token =>
    refine .inl ⟨?_, ?_⟩
    · intro hnil
      exact hresolve.nonempty token (String.toList_eq_nil_iff.1 hnil)
    · intro c hc
      simpa [isPlain] using hresolve.not_mark token c hc
  | genericParam index ofMethod => exact .inr ⟨index, ofMethod, rfl⟩
  | _ => exact h.elim

/-- A stem that is no generic parameter is told by its name. -/
theorem IsStem.eq_of_name_eq (hresolve : resolve.Plain) {type other : TypeSig} (h : type.IsStem)
    (hother : other.IsStem) (hparam : ∀ index ofMethod, type ≠ genericParam index ofMethod)
    (hparam' : ∀ index ofMethod, other ≠ genericParam index ofMethod)
    (hname : type.name resolve = other.name resolve) : type = other := by
  cases type with
  | primitive kind =>
    cases other with
    | primitive kind' => rw [systemName_injective hname]
    | classType token => exact absurd hname.symm (hresolve.ne_systemName token kind)
    | genericParam => exact absurd rfl (hparam' _ _)
    | _ => exact hother.elim
  | classType token =>
    cases other with
    | primitive kind => exact absurd hname (hresolve.ne_systemName token kind)
    | classType token' => rw [hresolve.injective token token' hname]
    | genericParam => exact absurd rfl (hparam' _ _)
    | _ => exact hother.elim
  | genericParam => exact absurd rfl (hparam _ _)
  | _ => exact h.elim

/-- A stem is legible in front of any mark. -/
theorem stem_append_inj (hresolve : resolve.Plain) {type other : TypeSig} (h : type.IsStem)
    (hother : other.IsStem) {r s : List Char} (hr : Stops isPlain r) (hs : Stops isPlain s)
    (htext : (type.name resolve).toList ++ r = (other.name resolve).toList ++ s) :
    type = other ∧ r = s := by
  have hmark : isPlain '!' = false := by decide
  -- a run of plain characters does not begin with the mark of a generic parameter
  have hdistinct : ∀ {plain : List Char} {index : Nat} {ofMethod : Bool} {r s : List Char},
      plain ≠ [] → (∀ c ∈ plain, isPlain c = true) →
      plain ++ r ≠ ((genericParam index ofMethod).name resolve).toList ++ s := by
    intro plain index ofMethod r s hne hplain heq
    obtain ⟨c, rest, rfl⟩ := List.exists_cons_of_ne_nil hne
    have hc : c = '!' := by
      cases ofMethod <;> simp [name] at heq <;> exact heq.1
    have hplainc := hplain c List.mem_cons_self
    rw [hc, hmark] at hplainc
    exact Bool.false_ne_true hplainc
  rcases h.plain_or_param hresolve with ⟨hne, hplain⟩ | ⟨index, ofMethod, rfl⟩
  · rcases hother.plain_or_param hresolve with ⟨hne', hplain'⟩ | ⟨index', ofMethod', rfl⟩
    · obtain ⟨hname, hend⟩ := append_inj_of_stops hplain hplain' hr hs htext
      refine ⟨h.eq_of_name_eq hresolve hother ?_ ?_ (String.toList_inj.1 hname), hend⟩
      · rintro index ofMethod rfl
        exact hdistinct (r := []) (s := []) hne hplain rfl
      · rintro index ofMethod rfl
        exact hdistinct (r := []) (s := []) hne' hplain' rfl
    · exact absurd htext (hdistinct hne hplain)
  · rcases hother.plain_or_param hresolve with ⟨hne', hplain'⟩ | ⟨index', ofMethod', rfl⟩
    · exact absurd htext.symm (hdistinct hne' hplain')
    · obtain ⟨⟨rfl, rfl⟩, hend⟩ := param_append_inj (stops_isDigit hr) (stops_isDigit hs) htext
      exact ⟨rfl, hend⟩

end TypeSig

/-! ## Reading suffixes and names -/

namespace TypeSig

variable {resolve : TokenNames}

/-- What may stand behind a name: nothing, a comma or the end of a list of names. -/
def NameEnds (r : List Char) : Prop := ∀ c ∈ r.head?, c ∈ [',', ']', ')']

/-- The name of the type is told from those of all well-formed types. -/
def NameTells (resolve : TokenNames) (type : TypeSig) : Prop :=
  ∀ other : TypeSig, other.WellFormed →
    Legible (fun type => (type.name resolve).toList) erased NameEnds type other

/-- The marks that no name begins with, those behind a name and between the brackets of arrays. -/
def notFirst : List Char := [',', ']', '*', ')']

/-- Names are not empty, and begin with none of these marks. -/
theorem exists_name_eq_cons (hresolve : resolve.Plain) (type : TypeSig) :
    ∃ c rest, (type.name resolve).toList = c :: rest ∧ c ∉ notFirst := by
  have hmarks : ∀ d ∈ notFirst, isPlain d = false := by simp [notFirst, isPlain, marks]
  rw [toList_name]
  rcases type.isStem_stem.plain_or_param hresolve with ⟨hne, hplain⟩ | ⟨index, ofMethod, hparam⟩
  · obtain ⟨c, rest, hcons⟩ := List.exists_cons_of_ne_nil hne
    rw [hcons] at hplain ⊢
    refine ⟨c, _, rfl, fun hc => ?_⟩
    exact Bool.false_ne_true ((hmarks c hc).symm.trans (hplain c List.mem_cons_self))
  · have hfirst : '!' ∉ notFirst := by decide
    rw [hparam]
    cases ofMethod with
    | true => exact ⟨'!', _, by simp [name]; rfl, hfirst⟩
    | false => exact ⟨'!', _, by simp [name]; rfl, hfirst⟩

/-- Lists of names are told apart if their members are, in front of an end that is neither a comma
nor the beginning of a name. -/
theorem legible_nameList (hresolve : resolve.Plain) (ends : List Char → Prop)
    (hends : ∀ r, ends r → NameEnds r) (hcomma : ∀ r, ¬ ends (',' :: r))
    (hname : ∀ c r, c ∉ notFirst → ¬ ends (c :: r)) {types others : List TypeSig}
    (h : ∀ type ∈ types, NameTells resolve type) (hothers : ∀ other ∈ others, other.WellFormed) :
    Legible (NameSuffix.nameList resolve) (List.map erased) ends types others := by
  have hstart : ∀ (type : TypeSig) (r : List Char), ¬ ends ((type.name resolve).toList ++ r) := by
    intro type r
    obtain ⟨c, rest, hcons, hc⟩ := exists_name_eq_cons hresolve type
    rw [hcons]
    exact hname c _ hc
  refine Legible.separated hcomma (fun type _ => hstart type) (fun type _ => hstart type) ?_
  intro type htype other hother
  refine (h type htype other (hothers other hother)).mono ?_
  rintro r (hr | ⟨rest, rfl⟩)
  · exact hends r hr
  · simp [NameEnds]

/-- Lists of names between brackets or parentheses. -/
theorem nameList_append_inj (hresolve : resolve.Plain) {close : Char} (hclose : close ∈ [']', ')'])
    {types others : List TypeSig} (h : ∀ type ∈ types, NameTells resolve type)
    (hothers : ∀ other ∈ others, other.WellFormed) {r s : List Char}
    (htext : NameSuffix.nameList resolve types ++ (close :: r) =
      NameSuffix.nameList resolve others ++ (close :: s)) :
    types.map erased = others.map erased ∧ r = s := by
  have hmarks : ∀ c ∈ [']', ')'], c ≠ ',' ∧ c ∈ [',', ']', ')'] ∧ c ∈ notFirst := by
    simp [notFirst]
  obtain ⟨hcomma, hends, hfirst⟩ := hmarks close hclose
  have hlist := legible_nameList hresolve (fun r => ∃ rest, r = close :: rest) ?_ ?_ ?_ h hothers
  · obtain ⟨hshown, hend⟩ := hlist _ _ ⟨r, rfl⟩ ⟨s, rfl⟩ htext
    exact ⟨hshown, (List.cons.inj hend).2⟩
  · rintro _ ⟨rest, rfl⟩
    simpa [NameEnds] using hends
  · rintro r ⟨rest, hrest⟩
    exact hcomma (List.cons.inj hrest).1.symm
  · rintro c r hc ⟨rest, hrest⟩
    exact hc ((List.cons.inj hrest).1 ▸ hfirst)

end TypeSig

namespace NameSuffix

open TypeSig

variable {resolve : TokenNames}

/-- What a suffix must hold to stand in the name of a well-formed type. -/
def WellFormed : NameSuffix → Prop
  | brackets _ | pointer | byRef => True
  | arguments args => args ≠ [] ∧ ∀ arg ∈ args, arg.WellFormed
  | signature params => ∀ param ∈ params, param.WellFormed

/-- The suffix is told from all others, whatever stands behind it. -/
def Tells (resolve : TokenNames) (suffix : NameSuffix) : Prop :=
  ∀ other : NameSuffix, other.WellFormed →
    Legible (text resolve) apply (fun _ => True) suffix other

/-- The marks between brackets tell the number of dimensions. -/
theorem inside_injective {dimensions other : Nat} (h : inside dimensions = inside other) :
    dimensions = other := by
  match dimensions, other with
  | 0, 0 | 1, 1 => rfl
  | n + 2, m + 2 =>
    have hlength := congrArg List.length h
    simpa [inside] using hlength
  | 0, 1 | 1, 0 | 0, m + 2 | n + 2, 0 => simp [inside, List.replicate_succ] at h
  | 1, m + 2 | n + 2, 1 => simp [inside, List.replicate_succ] at h

/-- Whether a character stands between the brackets of an array. -/
def isInside (c : Char) : Bool := c == '*' || c == ','

/-- Only stars and commas stand between the brackets of an array. -/
theorem isInside_of_mem_inside {dimensions : Nat} {c : Char} (h : c ∈ inside dimensions) :
    isInside c = true := by
  match dimensions with
  | 0 => simp [inside] at h
  | 1 => simp [inside] at h; simp [isInside, h]
  | n + 2 => simp [inside] at h; simp [isInside, h]

/-- Behind an opening bracket, dimensions are told from type arguments by the first character. -/
theorem brackets_append_ne_arguments (hresolve : resolve.Plain) {dimensions : Nat}
    {args : List TypeSig} (hargs : args ≠ []) (r s : List Char) :
    text resolve (brackets dimensions) ++ r ≠ text resolve (arguments args) ++ s := by
  obtain ⟨arg, args, rfl⟩ := List.exists_cons_of_ne_nil hargs
  obtain ⟨c, rest, hcons, hc⟩ := exists_name_eq_cons hresolve arg
  have hfirst : ∀ d, isInside d = true → d ∈ notFirst := by
    intro d hd
    rcases (by simpa [isInside] using hd : d = '*' ∨ d = ',') with rfl | rfl <;> decide
  intro h
  simp only [text, nameList, List.map_cons, intercalate_cons_eq_append_flatMap, hcons,
    List.cons_append, List.cons.injEq, true_and] at h
  cases hinside : inside dimensions with
  | nil =>
    rw [hinside, List.nil_append, List.cons_append, List.cons.injEq] at h
    exact hc (h.1 ▸ by decide)
  | cons d rest' =>
    rw [hinside, List.cons_append, List.cons_append, List.cons.injEq] at h
    have hd : isInside d = true :=
      isInside_of_mem_inside (by rw [hinside]; exact List.mem_cons_self)
    exact hc (h.1 ▸ hfirst d hd)

/-- The brackets of an array are told from all other suffixes. -/
theorem tells_brackets (hresolve : resolve.Plain) (dimensions : Nat) :
    (brackets dimensions).Tells resolve := by
  intro other hother r s _ _ h
  cases other with
  | brackets dimensions' =>
    have hinside : inside dimensions ++ (']' :: r) = inside dimensions' ++ (']' :: s) := by
      simpa [text] using h
    have hstop : Stops isInside (']' :: r) ∧ Stops isInside (']' :: s) := by
      constructor <;> exact stops_cons.2 (by decide)
    obtain ⟨hsame, hend⟩ := append_inj_of_stops (fun _ => isInside_of_mem_inside)
      (fun _ => isInside_of_mem_inside) hstop.1 hstop.2 hinside
    rw [inside_injective hsame]
    exact ⟨rfl, (List.cons.inj hend).2⟩
  | arguments args => exact absurd h (brackets_append_ne_arguments hresolve hother.1 r s)
  | pointer | byRef | signature => simp [text] at h

/-- The star of a pointer is told from all other suffixes. -/
theorem tells_pointer : pointer.Tells resolve := by
  intro other hother r s _ _ h
  cases other with
  | pointer => exact ⟨rfl, by simpa [text] using h⟩
  | brackets | byRef | arguments | signature => simp [text] at h

/-- The mark of a reference is told from all other suffixes. -/
theorem tells_byRef : byRef.Tells resolve := by
  intro other hother r s _ _ h
  cases other with
  | byRef => exact ⟨rfl, by simpa [text] using h⟩
  | brackets | pointer | arguments | signature => simp [text] at h

/-- Type arguments are told from all other suffixes if each of them is told by its name. -/
theorem tells_arguments (hresolve : resolve.Plain) {args : List TypeSig} (hargs : args ≠ [])
    (h : ∀ arg ∈ args, arg.NameTells resolve) : (arguments args).Tells resolve := by
  intro other hother r s _ _ htext
  cases other with
  | arguments args' =>
    have hclosed : nameList resolve args ++ (']' :: r) = nameList resolve args' ++ (']' :: s) := by
      simpa [text] using htext
    obtain ⟨hshown, hend⟩ := nameList_append_inj hresolve (by decide) h hother.2 hclosed
    refine ⟨?_, hend⟩
    funext type
    cases type <;> simp [apply, hshown]
  | brackets dimensions =>
    exact absurd htext.symm (brackets_append_ne_arguments hresolve hargs s r)
  | pointer | byRef | signature => simp [text] at htext

/-- So are the parameters of a function pointer. -/
theorem tells_signature (hresolve : resolve.Plain) {params : List TypeSig}
    (h : ∀ param ∈ params, param.NameTells resolve) : (signature params).Tells resolve := by
  intro other hother r s _ _ htext
  cases other with
  | signature params' =>
    have hclosed : nameList resolve params ++ (')' :: r) =
        nameList resolve params' ++ (')' :: s) := by
      simpa [text] using htext
    obtain ⟨hshown, hend⟩ := nameList_append_inj hresolve (by decide) h hother hclosed
    refine ⟨?_, hend⟩
    funext type
    simp [apply, hshown]
  | brackets | pointer | byRef | arguments => simp [text] at htext

end NameSuffix

namespace TypeSig

variable {resolve : TokenNames}

/-- A well-formed type adds nothing but well-formed suffixes. -/
theorem wellFormed_of_mem_suffixes {type : TypeSig} (h : type.WellFormed) :
    ∀ suffix ∈ type.suffixes, suffix.WellFormed := by
  induction type using induction_on_children with
  | step type ih =>
    obtain ⟨root, hchildren⟩ := h
    have hinner : ∀ child ∈ type.children, ∀ suffix ∈ child.suffixes, suffix.WellFormed :=
      fun child hchild => ih child hchild (hchildren child hchild)
    cases type with
    | primitive | classType | valueType | genericParam => simp [suffixes]
    | instantiation base isValueType args =>
      simpa [suffixes, NameSuffix.WellFormed] using ⟨root.2.nonempty, hchildren⟩
    | vector inner | array inner | pointer inner | byRef inner =>
      simp only [suffixes, List.forall_mem_append, List.forall_mem_singleton]
      exact ⟨hinner inner (by simp [children]), trivial⟩
    | functionPointer header result params =>
      simp only [suffixes, List.forall_mem_append, List.forall_mem_singleton]
      refine ⟨hinner result (by simp [children]), ?_⟩
      exact fun param hparam => hchildren param (by simp [children, hparam])
    | modified _ _ inner | pinned inner => exact hinner inner (by simp [children])

/-- A name is told from others if each of its suffixes is. -/
theorem nameTells_of_suffixes (hresolve : resolve.Plain) {type : TypeSig} (h : type.WellFormed)
    (hsuffixes : ∀ suffix ∈ type.suffixes, suffix.Tells resolve) : type.NameTells resolve := by
  intro other hother r s hr hs htext
  have hends : ∀ r, NameEnds r → Stops isPlain r := by
    intro r hr c hc
    have hmarks : ∀ d ∈ [',', ']', ')'], isPlain d = false := by simp [isPlain, marks]
    exact hmarks c (hr c hc)
  -- every suffix begins with a mark, which neither a stem nor the end of a name does
  have hmark : ∀ (suffix : NameSuffix) (r : List Char), ∃ c rest,
      suffix.text resolve ++ r = c :: rest ∧ isPlain c = false ∧ c ∉ [',', ']', ')'] := by
    intro suffix r
    cases suffix <;> exact ⟨_, _, rfl, by decide, by decide⟩
  have hstop : ∀ (suffixes : List NameSuffix) (r : List Char), NameEnds r →
      Stops isPlain (suffixes.flatMap (NameSuffix.text resolve) ++ r) := by
    intro suffixes r hr
    cases suffixes with
    | nil => exact hends r hr
    | cons suffix suffixes =>
      rw [List.flatMap_cons, List.append_assoc]
      obtain ⟨c, rest, hcons, hc, _⟩ := hmark suffix
        (suffixes.flatMap (NameSuffix.text resolve) ++ r)
      rw [hcons]
      exact stops_cons.2 hc
  dsimp only at htext
  rw [toList_name resolve type, toList_name resolve other, List.append_assoc,
    List.append_assoc] at htext
  obtain ⟨hstem, hrest⟩ := stem_append_inj hresolve type.isStem_stem other.isStem_stem
    (hstop _ r hr) (hstop _ s hs) htext
  have hpieces : Legible (List.flatMap (NameSuffix.text resolve)) (List.map NameSuffix.apply)
      NameEnds type.suffixes other.suffixes := by
    have hgo : ∀ (suffixes : List NameSuffix), ∀ suffix ∈ suffixes, ∀ r,
        ¬ NameEnds (suffix.text resolve ++ r) := by
      intro suffixes suffix _ r hr
      obtain ⟨c, rest, hcons, _, hc⟩ := hmark suffix r
      rw [hcons] at hr
      exact hc (hr c rfl)
    refine Legible.flatMap (fun _ => True) (fun _ _ => trivial) (fun _ _ => trivial)
      (hgo _) (hgo _) ?_
    intro suffix hsuffix suffix' hsuffix'
    exact hsuffixes suffix hsuffix suffix' (wellFormed_of_mem_suffixes hother suffix' hsuffix')
  obtain ⟨hshown, hend⟩ := hpieces r s hr hs hrest
  refine ⟨?_, hend⟩
  rw [erased_eq_foldl h, erased_eq_foldl hother, hstem, foldl_eq_of_map_eq hshown]

/-- The name of a well-formed type is told from the names of all others. -/
theorem nameTells (hresolve : resolve.Plain) {type : TypeSig} (h : type.WellFormed) :
    type.NameTells resolve := by
  suffices hsuffixes : ∀ suffix ∈ type.suffixes, suffix.Tells resolve from
    nameTells_of_suffixes hresolve h hsuffixes
  induction type using induction_on_children with
  | step type ih =>
    obtain ⟨root, hchildren⟩ := h
    have hinner : ∀ child ∈ type.children, ∀ suffix ∈ child.suffixes, suffix.Tells resolve :=
      fun child hchild => ih child hchild (hchildren child hchild)
    have hnames : ∀ child ∈ type.children, child.NameTells resolve :=
      fun child hchild => nameTells_of_suffixes hresolve (hchildren child hchild)
        (hinner child hchild)
    cases type with
    | primitive | classType | valueType | genericParam => simp [suffixes]
    | instantiation base isValueType args =>
      simp only [suffixes, List.forall_mem_singleton]
      exact NameSuffix.tells_arguments hresolve root.2.nonempty hnames
    | vector inner | array inner =>
      simp only [suffixes, List.forall_mem_append, List.forall_mem_singleton]
      exact ⟨hinner inner (by simp [children]), NameSuffix.tells_brackets hresolve _⟩
    | pointer inner =>
      simp only [suffixes, List.forall_mem_append, List.forall_mem_singleton]
      exact ⟨hinner inner (by simp [children]), NameSuffix.tells_pointer⟩
    | byRef inner =>
      simp only [suffixes, List.forall_mem_append, List.forall_mem_singleton]
      exact ⟨hinner inner (by simp [children]), NameSuffix.tells_byRef⟩
    | functionPointer header result params =>
      simp only [suffixes, List.forall_mem_append, List.forall_mem_singleton]
      refine ⟨hinner result (by simp [children]), NameSuffix.tells_signature hresolve ?_⟩
      exact fun param hparam => hnames param (by simp [children, hparam])
    | modified _ _ inner | pinned inner => exact hinner inner (by simp [children])

/-- What is left out of a name does not change it. -/
theorem name_erased (resolve : TokenNames) (type : TypeSig) :
    type.erased.name resolve = type.name resolve := by
  induction type using induction_on_children with
  | step type ih =>
    have heach : ∀ types : List TypeSig, (∀ child ∈ types, child ∈ type.children) →
        names resolve (erasedEach types) = names resolve types := by
      intro types htypes
      rw [names_eq_map, names_eq_map, erasedEach_eq_map, List.map_map]
      exact List.map_congr_left fun child hchild => ih child (htypes child hchild)
    cases type with
    | primitive | classType | valueType | genericParam => rfl
    | instantiation base isValueType args =>
      simp [erased, name, heach args fun child hchild => hchild]
    | vector inner | pointer inner | byRef inner | modified _ _ inner | pinned inner =>
      simp [erased, name, ih inner (by simp [children])]
    | array inner shape =>
      simp [erased, name, ih inner (by simp [children]), ArrayShape.name]
    | functionPointer header result params =>
      simp [erased, name, ih result (by simp [children]),
        heach params fun child hchild => by simp [children, hchild]]

/-- Well-formed types have the same name exactly if they are the same once erased. -/
theorem name_eq_iff_erased_eq (hresolve : resolve.Plain) {type other : TypeSig}
    (h : type.WellFormed) (hother : other.WellFormed) :
    type.name resolve = other.name resolve ↔ type.erased = other.erased := by
  constructor
  · intro hname
    have htells := nameTells hresolve h other hother [] [] (by simp [NameEnds])
      (by simp [NameEnds])
    exact (htells (by simp only [hname])).1
  · intro herased
    rw [← name_erased resolve type, ← name_erased resolve other, herased]

end TypeSig

/-! ## Names of what is read -/

/-- The tokens' numbers do for names. -/
theorem TokenNames.plain_unresolved : unresolved.Plain := by
  have htext : ∀ token, unresolved.nameOf token = token.text := fun _ => rfl
  have hdigit : ∀ n < 16, isPlain (Nat.digitChar n) = true := by decide
  have hdigits : ∀ width n, ∀ c ∈ Hexadecimal.digits width n, isPlain c = true := by
    intro width
    induction width with
    | zero => simp [Hexadecimal.digits]
    | succ width ih =>
      intro n
      simp only [Hexadecimal.digits, List.forall_mem_append, List.forall_mem_singleton]
      exact ⟨ih _, hdigit _ (Nat.mod_lt _ (by decide))⟩
  constructor
  · intro token hnil
    rw [htext, ← String.toList_eq_nil_iff, Token.toList_text] at hnil
    cases hnil
  · intro token other h
    rw [htext, htext] at h
    have htokens := Token.text_append_inj (r := []) (s := []) (by rw [h] :
      token.text.toList ++ [] = other.text.toList ++ [])
    exact htokens.1
  · intro token kind h
    rw [htext] at h
    have hlist := congrArg String.toList h
    rw [Token.toList_text] at hlist
    cases kind <;> cases hlist
  · intro token c hc
    rw [htext, Token.toList_text] at hc
    have hplain : isPlain c = true := by
      rcases List.mem_cons.1 hc with rfl | hc
      · decide
      · rcases List.mem_cons.1 hc with rfl | hc
        · decide
        · exact hdigits 8 _ c hc
    simpa [isPlain] using hplain

/-- The method can be read from some blob. -/
def MethodSig.Returned (method : MethodSig) : Prop :=
  ∃ options start stop, (MethodSig.decode options).run start = .ok method stop

/-- The type can be read from some blob. -/
def TypeSig.Returned (type : TypeSig) : Prop :=
  ∃ options start stop, (TypeSig.decode options).run start = .ok type stop

/-- A type that is read from some blob is well-formed. -/
theorem TypeSig.Returned.wellFormed {type : TypeSig} (h : type.Returned) : type.WellFormed := by
  obtain ⟨options, start, stop, hrun⟩ := h
  exact wellFormed_of_run_decode hrun

/-- A method that is read from some blob is well-formed. -/
theorem MethodSig.Returned.wellFormed {method : MethodSig} (h : method.Returned) :
    (Signature.method method).WellFormed := by
  obtain ⟨options, start, stop, hrun⟩ := h
  have hsignature : (Signature.decode options .method).run start = .ok (.method method) stop := by
    rw [Signature.run_decode_method, hrun]
    rfl
  exact Signature.wellFormed_of_run_decode hsignature

/-- With names of tokens that are told from each other, from those of primitive types and from the
marks, and with the numbers of the tokens for names, two methods that are read have the same
parameter names exactly if their parameters are the same once modifiers, pinning, the bounds of
arrays, the difference of classes and value types, and all of function pointers but their types are
erased. So do two types that are read; vectors, arrays of each rank and all other types are always
told from each other. -/
theorem MethodSig.parameterNames_eq_iff_erased :
    TokenNames.unresolved.Plain ∧ ∀ resolve : TokenNames, resolve.Plain →
      (∀ method other : MethodSig, method.Returned → other.Returned →
        (method.parameterNames resolve = other.parameterNames resolve ↔
          method.params.map TypeSig.erased = other.params.map TypeSig.erased)) ∧
      ∀ type other : TypeSig, type.Returned → other.Returned →
        (type.name resolve = other.name resolve ↔ type.erased = other.erased) ∧
        (type.name resolve = other.name resolve →
          type.unmodified.dimensions? = other.unmodified.dimensions?) := by
  refine ⟨TokenNames.plain_unresolved, fun resolve hresolve => ⟨?_, ?_⟩⟩
  · intro method other hmethod hother
    have hparams : ∀ {method : MethodSig}, method.Returned →
        ∀ param ∈ method.params, param.WellFormed := by
      intro method hmethod param hparam
      apply hmethod.wellFormed.types
      rw [Signature.types_method]
      exact List.mem_cons_of_mem _ hparam
    have htext : ∀ method : MethodSig, (method.parameterNames resolve).toList =
        NameSuffix.nameList resolve method.params := by
      intro method
      rw [parameterNames, String.toList_intercalate]
      exact NameSuffix.toList_names resolve method.params
    constructor
    · intro h
      have hlist := TypeSig.legible_nameList hresolve (fun r => r = [])
        (by simp [TypeSig.NameEnds]) (by simp) (by simp)
        (fun param hparam => TypeSig.nameTells hresolve (hparams hmethod param hparam))
        (hparams hother)
      refine (hlist [] [] rfl rfl ?_).1
      rw [← htext, ← htext, h]
    · intro h
      have hnames : ∀ types : List TypeSig, TypeSig.names resolve types =
          (types.map TypeSig.erased).map (TypeSig.name resolve) := by
        intro types
        rw [TypeSig.names_eq_map, List.map_map]
        exact List.map_congr_left fun type _ => (TypeSig.name_erased resolve type).symm
      rw [parameterNames, parameterNames, hnames, hnames, h]
  · intro type other htype hother
    have hiff := TypeSig.name_eq_iff_erased_eq hresolve htype.wellFormed hother.wellFormed
    refine ⟨hiff, ?_⟩
    intro hname
    rw [← TypeSig.dimensions?_erased, ← TypeSig.dimensions?_erased, hiff.1 hname]

/-- With the numbers of tokens for names, two methods that differ in a modifier, in pinning, in the
bounds of an array and in a class that is a value type have the same parameter names, and an array
of one dimension has not the name of a vector. -/
theorem MethodSig.parameterNames_eq_iff_erased_modified :
    (MethodSig.mk {} (.primitive .void)
        [.modified (.ofParts .typeRef 1) true (.classType (.ofParts .typeRef 18)),
          .array (.primitive .int32) ⟨2, [3], [0]⟩]).parameterNames .unresolved =
      (MethodSig.mk { hasThis := true } (.primitive .boolean)
        [.valueType (.ofParts .typeRef 18),
          .pinned (.array (.primitive .int32) ⟨2, [], []⟩)]).parameterNames .unresolved ∧
    (TypeSig.vector (.primitive .int32)).name .unresolved ≠
      (TypeSig.array (.primitive .int32) ⟨1, [], []⟩).name .unresolved := by
  constructor
  · refine ((parameterNames_eq_iff_erased.2 .unresolved TokenNames.plain_unresolved).1 _ _
      ⟨⟨4, true⟩, .start [0x00, 0x02, 0x01, 0x1F, 0x05, 0x12, 0x49, 0x14, 0x08, 0x02, 0x01, 0x03,
        0x01, 0x00], _, rfl⟩
      ⟨⟨4, true⟩, .start [0x20, 0x02, 0x02, 0x11, 0x49, 0x45, 0x14, 0x08, 0x02, 0x00, 0x00], _,
        rfl⟩).2 ?_
    decide
  · refine mt ((parameterNames_eq_iff_erased.2 .unresolved TokenNames.plain_unresolved).2 _ _
      ⟨⟨4, true⟩, .start [0x1D, 0x08], _, rfl⟩
      ⟨⟨4, true⟩, .start [0x14, 0x08, 0x01, 0x00, 0x00], _, rfl⟩).1.1 ?_
    decide

end SignatureBlob
