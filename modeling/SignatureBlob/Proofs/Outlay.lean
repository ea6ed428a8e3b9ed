import Mathlib.Algebra.BigOperators.Ring.List
import Mathlib.Algebra.Order.BigOperators.Group.List
import Mathlib.Algebra.Order.Ring.Nat
import SignatureBlob.Proofs.Respelling
import SignatureBlob.Proofs.SignatureRecognition
import SignatureBlob.Subject

/-!
# What values take in bytes

How large a value may be against the bytes that derive it. Each number, token, mark and type takes a
byte at least, and what bytes are taken by the parts of a value is taken by the value. A claim about
all types and their bytes is proved by the productions, each of which may assume the claim of the
types inside.

Main statements: `TypeSig.Derives.induction` (claims by the productions), `Grammar.Each.sum_map_le`
(lists are paid for by their members) and `Subject.exists_derives` (what is read is derived by the
bytes that were gone over).
-/

namespace SignatureBlob

open Grammar CompressedInt Decoder

variable {latitude : Latitude} {bytes : List UInt8}

/-! ## Lists -/

namespace Grammar

variable {α : Type} {item : α → List UInt8 → Prop} {values : List α}

/-- If a measure of each member is paid for by its bytes, at a rate for each byte, then so is the
measure of all. -/
theorem Each.sum_map_le {measure : α → Nat} (h : Each item values bytes) (rate : Nat)
    (hitem : ∀ value bytes, item value bytes → measure value ≤ rate * bytes.length) :
    (values.map measure).sum ≤ rate * bytes.length := by
  induction h with
  | nil => exact Nat.zero_le _
  | cons head _ ih =>
    rw [List.map_cons, List.sum_cons, List.length_append, Nat.mul_add]
    exact Nat.add_le_add (hitem _ _ head) ih

/-- A list of values that each take a byte is no longer than its bytes. -/
theorem Each.length_le (h : Each item values bytes)
    (hitem : ∀ value bytes, item value bytes → bytes ≠ []) : values.length ≤ bytes.length := by
  induction h with
  | nil => exact Nat.le_refl 0
  | cons head _ ih =>
    have hpos := List.length_pos_iff.2 (hitem _ _ head)
    rw [List.length_cons, List.length_append]
    omega

end Grammar

/-! ## Numbers, tokens and shapes -/

/-- An unsigned number takes a byte at least. -/
theorem CompressedInt.DerivesUnsigned.length_pos {value : Nat}
    (h : DerivesUnsigned latitude value bytes) : 0 < bytes.length :=
  List.length_pos_iff.2 h.ne_nil

/-- So does a signed number. -/
theorem CompressedInt.DerivesSigned.ne_nil {value : Int}
    (h : DerivesSigned latitude value bytes) : bytes ≠ [] := by
  obtain ⟨_, _⟩ := h
  exact Form.encode_ne_nil _ _

/-- So does a token. -/
theorem CodedToken.Derives.length_pos {token : Token}
    (h : CodedToken.Derives latitude token bytes) : 0 < bytes.length := by
  obtain ⟨_, coded⟩ := h
  exact coded.length_pos

/-- The rank, the two numbers, the sizes and the lower bounds take a byte each. -/
theorem ArrayShape.Derives.length_le {shape : ArrayShape} (h : shape.Derives latitude bytes) :
    3 + shape.sizes.length + shape.lowerBounds.length ≤ bytes.length := by
  obtain ⟨_, _, _, _, ranked, sizeCount, eachSize, boundCount, eachBound⟩ := h
  have hrank := ranked.length_pos
  have hsizeCount := sizeCount.length_pos
  have hsizes := eachSize.length_le fun _ _ h => h.ne_nil
  have hboundCount := boundCount.length_pos
  have hbounds := eachBound.length_le fun _ _ h => h.ne_nil
  simp only [List.length_append]
  omega

/-! ## Types -/

namespace TypeSig

variable {inner inner' : TypeSig → List UInt8 → Prop}

/-- What an element type announces may be derived from more for the types inside. -/
theorem Announces.mono {element : ElementType} {type : TypeSig}
    (h : Announces latitude inner element type bytes)
    (hinner : ∀ child ∈ type.children, ∀ bytes, inner child bytes → inner' child bytes) :
    Announces latitude inner' element type bytes := by
  obtain ⟨_, hannounced, rfl⟩ := h.respell (respelling_eq latitude)
    fun child hchild bytes h => ⟨bytes, hinner child hchild bytes h, rfl⟩
  exact hannounced

/-- What each production passes on from the types inside holds of all types and their bytes. -/
theorem Derives.induction {motive : TypeSig → List UInt8 → Prop} {type : TypeSig}
    (h : type.Derives latitude bytes) (step : ∀ {element type bytes},
      Announces latitude motive element type bytes → motive type (element.byte :: bytes)) :
    motive type bytes := by
  induction type using induction_on_children generalizing bytes with
  | step type ih =>
    obtain ⟨announced⟩ := h
    exact step (announced.mono fun child hchild bytes h => ih child hchild h)

end TypeSig

/-- The mark of the sentinel is paid for as well. -/
theorem MethodSig.DerivesParams.sum_map_le {inner : TypeSig → List UInt8 → Prop}
    {sentinel : Option Nat} {params : List TypeSig} {measure : TypeSig → Nat}
    (h : MethodSig.DerivesParams inner sentinel params bytes) (rate : Nat)
    (hinner : ∀ type bytes, inner type bytes → measure type ≤ rate * bytes.length) :
    (params.map measure).sum + rate * sentinel.toList.length ≤ rate * bytes.length := by
  cases h with
  | fixed each => exact each.sum_map_le rate hinner
  | varArgs before behind nonempty =>
    have hbefore := before.sum_map_le rate hinner
    have hbehind := behind.sum_map_le rate hinner
    simp only [List.map_append, List.sum_append, Option.toList_some, List.length_append,
      List.length_cons, List.length_nil, Nat.mul_add]
    omega

/-- The types of a method are paid for by its bytes. -/
theorem MethodSig.DerivesWith.sum_map_le {inner : TypeSig → List UInt8 → Prop} {method : MethodSig}
    {measure : TypeSig → Nat} (h : method.DerivesWith latitude inner bytes) (rate : Nat)
    (hinner : ∀ type bytes, inner type bytes → measure type ≤ rate * bytes.length) :
    ((method.result :: method.params).map measure).sum ≤ rate * bytes.length := by
  obtain ⟨-, -, returned, listed, -⟩ := h
  have hresult := hinner _ _ returned
  have hparams := listed.sum_map_le rate hinner
  simp only [List.map_cons, List.sum_cons, List.length_append, Nat.mul_add]
  omega

/-! ## Nodes -/

namespace TypeSig

mutual

/-- The type and all types in it, at all depths. -/
def nodes : TypeSig → List TypeSig
  | primitive kind => [primitive kind]
  | classType token => [classType token]
  | valueType token => [valueType token]
  | vector element => vector element :: nodes element
  | array element shape => array element shape :: nodes element
  | pointer target => pointer target :: nodes target
  | byRef target => byRef target :: nodes target
  | genericParam index ofMethod => [genericParam index ofMethod]
  | instantiation base isValueType args => instantiation base isValueType args :: nodesEach args
  | functionPointer header result params =>
    functionPointer header result params :: (nodes result ++ nodesEach params)
  | modified modifier required inner => modified modifier required inner :: nodes inner
  | pinned inner => pinned inner :: nodes inner

/-- Some types and all types in them. -/
def nodesEach : List TypeSig → List TypeSig
  | [] => []
  | type :: types => nodes type ++ nodesEach types

end

/-- The types in some types are those in each of them. -/
theorem nodesEach_eq_flatMap (types : List TypeSig) : nodesEach types = types.flatMap nodes := by
  induction types with
  | nil => rfl
  | cons type types ih => rw [nodesEach, ih, List.flatMap_cons]

/-- The nodes are the root and the nodes of the children. -/
theorem nodes_eq (type : TypeSig) : type.nodes = type :: type.children.flatMap nodes := by
  cases type <;> simp [nodes, children, nodesEach_eq_flatMap]

/-- The sizes that an array gives. -/
def arraySizes : TypeSig → List Nat
  | array _ shape => shape.sizes
  | _ => []

/-- The lower bounds that an array gives. -/
def arrayLowerBounds : TypeSig → List Int
  | array _ shape => shape.lowerBounds
  | _ => []

/-- How many types there are, and sizes and lower bounds of arrays among them. -/
def load (types : List TypeSig) : Nat :=
  types.length + (types.flatMap arraySizes).length + (types.flatMap arrayLowerBounds).length

/-- The loads of two lists add up. -/
theorem load_append (types types' : List TypeSig) :
    load (types ++ types') = load types + load types' := by
  simp only [load, List.flatMap_append, List.length_append]
  omega

/-- A type adds itself and what it gives of an array. -/
theorem load_cons (type : TypeSig) (types : List TypeSig) :
    load (type :: types) =
      1 + type.arraySizes.length + type.arrayLowerBounds.length + load types := by
  simp only [load, List.flatMap_cons, List.length_append, List.length_cons]
  omega

/-- The load of all types in some types is the sum of their loads. -/
theorem load_flatMap (types : List TypeSig) :
    load (types.flatMap nodes) = (types.map fun type => load type.nodes).sum := by
  induction types with
  | nil => rfl
  | cons type types ih => rw [List.flatMap_cons, load_append, ih, List.map_cons, List.sum_cons]

/-- A type, with all types in it, and the sizes and lower bounds of arrays take a byte each. -/
theorem load_nodes_le {type : TypeSig} (h : type.Derives latitude bytes) :
    load type.nodes ≤ bytes.length := by
  refine h.induction (motive := fun type bytes => load type.nodes ≤ bytes.length) ?_
  intro element type bytes h
  rw [nodes_eq, load_cons, load_flatMap, List.length_cons]
  cases h with
  | primitive | classType | valueType | typeParameter | methodParameter =>
    simp [arraySizes, arrayLowerBounds, children]
  | vector nested | pointer nested | byRef nested | pinned nested =>
    simp [arraySizes, arrayLowerBounds, children]
    omega
  | requiredModifier coded nested | optionalModifier coded nested =>
    simp [arraySizes, arrayLowerBounds, children]
    omega
  | array nested shaped =>
    have hshape := shaped.length_le
    simp [arraySizes, arrayLowerBounds, children]
    omega
  | instantiation coded nonempty counted each =>
    have hargs := each.sum_map_le 1 fun _ _ h => by rwa [Nat.one_mul]
    simp [arraySizes, arrayLowerBounds, children] at hargs ⊢
    omega
  | functionPointer method =>
    have htypes := method.sum_map_le 1 fun _ _ h => by rwa [Nat.one_mul]
    simp [arraySizes, arrayLowerBounds, children] at htypes ⊢
    omega

end TypeSig

/-! ## Signatures -/

/-- A signature may be derived from more for its types. -/
theorem Signature.Derives.mono {inner : TypeSig → List UInt8 → Prop} {signature : Signature}
    (h : signature.Derives latitude bytes)
    (hinner : ∀ type bytes, TypeSig.Derives latitude type bytes → inner type bytes) :
    signature.DerivesWith latitude inner bytes := by
  obtain ⟨_, hderives, rfl⟩ := Signature.DerivesWith.respell (respelling_eq latitude) h
    fun type _ bytes h => ⟨bytes, hinner type bytes h, rfl⟩
  exact hderives

/-- The types of a signature are paid for by its bytes. -/
theorem Signature.DerivesWith.sum_map_le {inner : TypeSig → List UInt8 → Prop}
    {signature : Signature} {measure : TypeSig → Nat}
    (h : signature.DerivesWith latitude inner bytes) (rate : Nat)
    (hinner : ∀ type bytes, inner type bytes → measure type ≤ rate * bytes.length) :
    (signature.types.map measure).sum ≤ rate * bytes.length := by
  cases h with
  | method derived =>
    rw [types_method]
    exact derived.sum_map_le rate hinner
  | field derived =>
    have htype := hinner _ _ derived
    rw [types_field, List.map_singleton, List.sum_singleton, List.length_cons, Nat.mul_succ]
    omega
  | typeSpec derived =>
    rw [types_typeSpec, List.map_singleton, List.sum_singleton]
    exact hinner _ _ derived
  | property counted derived each =>
    have htype := hinner _ _ derived
    have hparams := each.sum_map_le rate hinner
    simp only [types_property, List.map_cons, List.sum_cons, List.length_cons, List.length_append,
      Nat.mul_add]
    omega
  | locals nonempty counted each =>
    have htypes := each.sum_map_le rate hinner
    simp only [types_locals, List.length_cons, List.length_append, Nat.mul_add]
    omega
  | methodSpec nonempty counted each =>
    have htypes := each.sum_map_le rate hinner
    simp only [types_methodSpec, List.length_cons, List.length_append, Nat.mul_add]
    omega

namespace Subject

/-- The bytes derive the subject. -/
def Derives (latitude : Latitude) : Subject → List UInt8 → Prop
  | signature whole => whole.Derives latitude
  | type single => single.Derives latitude

/-- All types of the subject, at all depths. -/
def nodes : Subject → List TypeSig
  | signature whole => whole.types.flatMap TypeSig.nodes
  | type single => single.nodes

/-- The types of a subject, at all depths, and the sizes and lower bounds of the arrays among them
take a byte each. -/
theorem load_nodes_le {subject : Subject} (h : subject.Derives latitude bytes) :
    TypeSig.load subject.nodes ≤ bytes.length := by
  cases subject with
  | signature whole =>
    have hpaid := Signature.Derives.mono h fun _ _ h => TypeSig.load_nodes_le h
    have htypes := hpaid.sum_map_le 1 fun _ _ h => by rwa [Nat.one_mul]
    rwa [nodes, TypeSig.load_flatMap, ← Nat.one_mul bytes.length]
  | type single => exact TypeSig.load_nodes_le h

/-- What is read is derived by the bytes that were gone over, under all options. -/
theorem exists_derives {options : DecodeOptions} {kind : SubjectKind} {subject : Subject}
    {start stop : Cursor} (h : (decode options kind).run start = .ok subject stop) :
    ∃ bytes, subject.Derives .wideEnough bytes ∧ start.Passes bytes stop := by
  cases kind with
  | signature kind =>
    obtain ⟨whole, place, hwhole, hpure⟩ := run_bind_eq_ok_iff.1 h
    obtain ⟨rfl, rfl⟩ := Outcome.ok.inj hpure
    obtain ⟨⟨bytes, ⟨-, hderives, -⟩, hpasses⟩, -⟩ := Signature.run_decode_eq_ok_iff.1 hwhole
    exact ⟨bytes, hderives, hpasses⟩
  | type =>
    obtain ⟨single, place, hsingle, hpure⟩ := run_bind_eq_ok_iff.1 h
    obtain ⟨rfl, rfl⟩ := Outcome.ok.inj hpure
    obtain ⟨bytes, ⟨hderives, -⟩, hpasses⟩ := TypeSig.run_decode_eq_ok_iff.1 hsingle
    exact ⟨bytes, hderives, hpasses⟩

end Subject

end SignatureBlob
