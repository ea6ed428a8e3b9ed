import SignatureBlob.Proofs.TypeEmission

/-!
# Well-formed types and signatures

A type is well formed if each node of its tree is: tokens point into tables of types, arrays have a
rank and at most one size and one lower bound for each dimension, lists and integers are within the
range of compressed integers, and what a method header says goes together. These are the types that
have any bytes, and the same holds of signatures.

Main statements: `TypeSig.exists_derives_iff` and `Signature.exists_derives_iff`.
-/

namespace SignatureBlob

open Grammar CompressedInt

/-! ## Definitions -/

/-- A shape that can be written: its dimensions and integers are within their limits. -/
structure ArrayShape.WellFormed (shape : ArrayShape) : Prop where
  rank_pos : 0 < shape.rank
  rank_le : shape.rank ≤ maxRank
  sizes_length_le : shape.sizes.length ≤ shape.rank
  lowerBounds_length_le : shape.lowerBounds.length ≤ shape.rank
  size_le : ∀ size ∈ shape.sizes, size ≤ maxUnsigned
  lowerBound_mem : ∀ bound ∈ shape.lowerBounds, minSigned ≤ bound ∧ bound ≤ maxSigned

/-- A header that can be written in front of `count` parameters. -/
structure MethodHeader.WellFormed (header : MethodHeader) (count : Nat) : Prop where
  /-- Only a method that is called on an instance can list it. -/
  instance_of_explicit : header.explicitThis = true → header.hasThis = true
  /-- A method that is not generic has no generic parameters. -/
  arity_eq_zero : header.generic = false → header.arity = 0
  arity_le : header.generic = true → header.arity ≤ maxUnsigned
  count_le : count ≤ maxUnsigned
  /-- The sentinel stands in front of a parameter, and only under a convention that has one. -/
  sentinel_lt : ∀ index, header.sentinel = some index →
    header.convention.admitsVarArgs = true ∧ index < count

/-- A list with at least one member and no more than can be counted. -/
structure TypeSig.Listable (types : List TypeSig) : Prop where
  nonempty : types ≠ []
  length_le : types.length ≤ maxUnsigned

namespace TypeSig

/-- What must hold of the topmost node of a type for the type to be well formed. -/
def RootWellFormed : TypeSig → Prop
  | primitive _ | vector _ | pointer _ | byRef _ | pinned _ => True
  | classType token | valueType token => token.typeTable?.isSome = true
  | array _ shape => shape.WellFormed
  | genericParam index _ => index ≤ maxUnsigned
  | instantiation base _ args => base.typeTable?.isSome = true ∧ Listable args
  | functionPointer header _ params => header.WellFormed params.length
  | modified modifier _ _ => modifier.typeTable?.isSome = true

/-- The topmost node of the type can be written, and so can the types inside. -/
inductive WellFormed : TypeSig → Prop
  | intro {type : TypeSig} (root : type.RootWellFormed)
      (children : ∀ child ∈ type.children, WellFormed child) : WellFormed type

end TypeSig

namespace Signature

/-- What must hold of a signature besides its types. -/
def RootWellFormed : Signature → Prop
  | method m => m.header.WellFormed m.params.length
  | field _ | typeSpec _ => True
  | property _ _ params => params.length ≤ maxUnsigned
  | locals types => TypeSig.Listable types
  | methodSpec args => TypeSig.Listable args

/-- The signature can be written around its types, and so can these. -/
structure WellFormed (signature : Signature) : Prop where
  root : signature.RootWellFormed
  types : ∀ type ∈ signature.types, type.WellFormed

end Signature

/-! ## Integers, tokens and shapes -/

namespace CompressedInt

/-- An unsigned number has bytes exactly if it is not too large. -/
theorem exists_derivesUnsigned_iff {value : Nat} :
    (∃ bytes, DerivesUnsigned .shortest value bytes) ↔ value ≤ maxUnsigned := by
  constructor
  · rintro ⟨bytes, h⟩
    exact h.le_maxUnsigned
  · intro h
    have hspan : value < Form.four.span := Nat.lt_of_le_of_lt h (by decide)
    obtain ⟨form, hform, _⟩ := Form.exists_forUnsigned? hspan
    exact ⟨_, .intro (Form.lt_span_of_forUnsigned? hform) hform⟩

/-- A signed number has bytes exactly if it is in range. -/
theorem exists_derivesSigned_iff {value : Int} :
    (∃ bytes, DerivesSigned .shortest value bytes) ↔ minSigned ≤ value ∧ value ≤ maxSigned := by
  have hfour : Form.four.Reaches value ↔ minSigned ≤ value ∧ value ≤ maxSigned := by
    simp only [Form.Reaches, minSigned, maxSigned, Form.span]
    omega
  rw [← hfour]
  constructor
  · rintro ⟨_, wide, _⟩
    exact wide.four
  · intro h
    obtain ⟨form, hform, _⟩ := Form.exists_forSigned? h
    exact ⟨_, .intro (Form.reaches_of_forSigned? hform) hform⟩

end CompressedInt

/-- A token has bytes exactly if it points into a table of types. -/
theorem CodedToken.exists_derives_iff {token : Token} :
    (∃ bytes, CodedToken.Derives .shortest token bytes) ↔ token.typeTable?.isSome = true := by
  constructor
  · rintro ⟨bytes, narrow, coded⟩
    rw [Token.typeTable?_ofParts]
    rfl
  · intro h
    obtain ⟨table, htable⟩ := Option.isSome_iff_exists.1 h
    have hcode := CodedToken.code_le_maxUnsigned table token
    obtain ⟨bytes, hbytes⟩ := exists_derivesUnsigned_iff.2 hcode
    rw [← Token.ofParts_row htable]
    exact ⟨bytes, .intro token.row_lt hbytes⟩

/-- A list has bytes exactly if each of its members has. -/
theorem Grammar.exists_each_iff {α : Type} {item : α → List UInt8 → Prop} {values : List α} :
    (∃ bytes, Each item values bytes) ↔ ∀ value ∈ values, ∃ bytes, item value bytes := by
  constructor
  · rintro ⟨bytes, h⟩
    exact h.forall fun value bytes h => ⟨bytes, h⟩
  · intro h
    induction values with
    | nil => exact ⟨[], .nil⟩
    | cons value values ih =>
      rw [List.forall_mem_cons] at h
      obtain ⟨front, hfront⟩ := h.1
      obtain ⟨back, hback⟩ := ih h.2
      exact ⟨front ++ back, .cons hfront hback⟩

/-- The shape of an array has bytes exactly if it is well-formed. -/
theorem ArrayShape.exists_derives_iff {shape : ArrayShape} :
    (∃ bytes, shape.Derives .shortest bytes) ↔ shape.WellFormed := by
  have hrank : maxRank ≤ maxUnsigned := by decide
  constructor
  · rintro ⟨bytes, positive, bounded, fewSizes, fewBounds, _, _, eachSize, _, eachBound⟩
    exact ⟨positive, bounded, fewSizes, fewBounds,
      eachSize.forall fun _ bytes h => exists_derivesUnsigned_iff.1 ⟨bytes, h⟩,
      eachBound.forall fun _ bytes h => exists_derivesSigned_iff.1 ⟨bytes, h⟩⟩
  · obtain ⟨rank, sizes, lowerBounds⟩ := shape
    rintro ⟨hpos, hle, hsizes, hbounds, hsize, hbound⟩
    dsimp only at hpos hle hsizes hbounds hsize hbound
    obtain ⟨_, ranked⟩ := exists_derivesUnsigned_iff.2 (Nat.le_trans hle hrank)
    obtain ⟨_, sizeCount⟩ := exists_derivesUnsigned_iff.2
      (Nat.le_trans hsizes (Nat.le_trans hle hrank))
    obtain ⟨_, eachSize⟩ := exists_each_iff.2
      fun size hmem => exists_derivesUnsigned_iff.2 (hsize size hmem)
    obtain ⟨_, boundCount⟩ := exists_derivesUnsigned_iff.2
      (Nat.le_trans hbounds (Nat.le_trans hle hrank))
    obtain ⟨_, eachBound⟩ := exists_each_iff.2
      fun bound hmem => exists_derivesSigned_iff.2 (hbound bound hmem)
    exact ⟨_, .intro hpos hle hsizes hbounds ranked sizeCount eachSize boundCount eachBound⟩

/-! ## Methods -/

variable {inner : TypeSig → List UInt8 → Prop}

/-- A header has bytes exactly if its flags and its arity fit each other. -/
theorem MethodHeader.exists_derives_iff {header : MethodHeader} :
    (∃ bytes, header.Derives .shortest bytes) ↔
      (header.explicitThis = true → header.hasThis = true) ∧
        (header.generic = false → header.arity = 0) ∧
        (header.generic = true → header.arity ≤ maxUnsigned) := by
  constructor
  · rintro ⟨bytes, h⟩
    cases h with
    | plain led flag none =>
      refine ⟨led.instance_of_explicit, fun _ => none, ?_⟩
      rw [none]
      exact fun _ => Nat.zero_le _
    | generic led flag counted =>
      refine ⟨led.instance_of_explicit, ?_, fun _ => counted.le_maxUnsigned⟩
      intro hplain
      exact absurd (hplain.symm.trans flag) Bool.false_ne_true
  · rintro ⟨hinstance, hplain, hgeneric⟩
    have hled : header.LedBy header.byte := ledBy_iff.2 ⟨rfl, hinstance⟩
    cases hflag : header.generic with
    | false => exact ⟨_, .plain hled hflag (hplain hflag)⟩
    | true =>
      obtain ⟨_, hcounted⟩ := exists_derivesUnsigned_iff.2 (hgeneric hflag)
      exact ⟨_, .generic hled hflag hcounted⟩

namespace MethodSig

/-- Parameters have bytes exactly if each has and the sentinel, if any, is in front of one. -/
theorem exists_derivesParams_iff {sentinel : Option Nat} {params : List TypeSig} :
    (∃ bytes, DerivesParams inner sentinel params bytes) ↔
      (∀ index, sentinel = some index → index < params.length) ∧
        ∀ param ∈ params, ∃ bytes, inner param bytes := by
  constructor
  · rintro ⟨bytes, h⟩
    refine ⟨?_, h.forall fun _ bytes h => ⟨bytes, h⟩⟩
    rintro index rfl
    exact h.sentinel_lt
  · rintro ⟨hplace, hparams⟩
    cases sentinel with
    | none =>
      obtain ⟨_, heach⟩ := exists_each_iff.2 hparams
      exact ⟨_, .fixed heach⟩
    | some index =>
      have hindex : index < params.length := hplace index rfl
      have hlength : (params.take index).length = index :=
        List.length_take_of_le (Nat.le_of_lt hindex)
      have hnonempty : params.drop index ≠ [] := by
        rw [Ne, List.drop_eq_nil_iff]
        omega
      rw [← List.take_append_drop index params, List.forall_mem_append] at hparams
      obtain ⟨_, hbefore⟩ := exists_each_iff.2 hparams.1
      obtain ⟨_, hbehind⟩ := exists_each_iff.2 hparams.2
      have hderives := DerivesParams.varArgs hbefore hbehind hnonempty
      rw [hlength, List.take_append_drop] at hderives
      exact ⟨_, hderives⟩

/-- A method has bytes exactly if its header can be written and its types have bytes. -/
theorem exists_derivesWith_iff {method : MethodSig} :
    (∃ bytes, method.DerivesWith .shortest inner bytes) ↔
      method.header.WellFormed method.params.length ∧
        ∀ type ∈ method.result :: method.params, ∃ bytes, inner type bytes := by
  constructor
  · rintro ⟨bytes, h⟩
    refine ⟨?_, h.forall fun _ bytes h => ⟨bytes, h⟩⟩
    obtain ⟨headed, counted, _, listed, admitted⟩ := h
    obtain ⟨hinstance, hplain, hgeneric⟩ := MethodHeader.exists_derives_iff.1 ⟨_, headed⟩
    refine ⟨hinstance, hplain, hgeneric, counted.le_maxUnsigned, ?_⟩
    intro index hindex
    refine ⟨admitted (by rw [hindex]; rfl), ?_⟩
    exact (exists_derivesParams_iff.1 ⟨_, listed⟩).1 index hindex
  · obtain ⟨header, result, params⟩ := method
    rintro ⟨⟨hinstance, hplain, hgeneric, hcount, hsentinel⟩, htypes⟩
    rw [List.forall_mem_cons] at htypes
    obtain ⟨_, headed⟩ := MethodHeader.exists_derives_iff.2 ⟨hinstance, hplain, hgeneric⟩
    obtain ⟨_, counted⟩ := exists_derivesUnsigned_iff.2 hcount
    obtain ⟨_, returned⟩ := htypes.1
    obtain ⟨_, listed⟩ := exists_derivesParams_iff.2
      ⟨fun index hindex => (hsentinel index hindex).2, htypes.2⟩
    refine ⟨_, .intro headed counted returned listed ?_⟩
    intro hsome
    obtain ⟨index, hindex⟩ := Option.isSome_iff_exists.1 hsome
    exact (hsentinel index hindex).1

end MethodSig

/-! ## Types -/

namespace TypeSig

/-- What an element type announces is well formed at its top. -/
theorem Announces.rootWellFormed {element : ElementType} {type : TypeSig} {bytes : List UInt8}
    (h : Announces .shortest inner element type bytes) : type.RootWellFormed := by
  cases h with
  | primitive | vector | pointer | byRef | pinned => trivial
  | classType coded | valueType coded | requiredModifier coded | optionalModifier coded =>
    exact CodedToken.exists_derives_iff.1 ⟨_, coded⟩
  | array _ shaped => exact ArrayShape.exists_derives_iff.1 ⟨_, shaped⟩
  | typeParameter counted | methodParameter counted => exact counted.le_maxUnsigned
  | instantiation coded nonempty counted =>
    exact ⟨CodedToken.exists_derives_iff.1 ⟨_, coded⟩, nonempty, counted.le_maxUnsigned⟩
  | functionPointer method => exact (MethodSig.exists_derivesWith_iff.1 ⟨_, method⟩).1

/-- A type that is well formed at its top has bytes if the types inside have. -/
theorem exists_derivesWith_of_root {type : TypeSig} (hroot : type.RootWellFormed)
    (hchildren : ∀ child ∈ type.children, ∃ bytes, inner child bytes) :
    ∃ bytes, type.DerivesWith .shortest inner bytes := by
  cases type with
  | primitive kind => exact ⟨_, .intro (.primitive kind)⟩
  | classType token =>
    obtain ⟨_, hcoded⟩ := CodedToken.exists_derives_iff.2 hroot
    exact ⟨_, .intro (.classType hcoded)⟩
  | valueType token =>
    obtain ⟨_, hcoded⟩ := CodedToken.exists_derives_iff.2 hroot
    exact ⟨_, .intro (.valueType hcoded)⟩
  | vector element =>
    obtain ⟨_, hnested⟩ := hchildren element List.mem_cons_self
    exact ⟨_, .intro (.vector hnested)⟩
  | array element shape =>
    obtain ⟨_, hnested⟩ := hchildren element List.mem_cons_self
    obtain ⟨_, hshaped⟩ := ArrayShape.exists_derives_iff.2 hroot
    exact ⟨_, .intro (.array hnested hshaped)⟩
  | pointer target =>
    obtain ⟨_, hnested⟩ := hchildren target List.mem_cons_self
    exact ⟨_, .intro (.pointer hnested)⟩
  | byRef target =>
    obtain ⟨_, hnested⟩ := hchildren target List.mem_cons_self
    exact ⟨_, .intro (.byRef hnested)⟩
  | genericParam index ofMethod =>
    obtain ⟨_, hcounted⟩ := exists_derivesUnsigned_iff.2 hroot
    cases ofMethod with
    | true => exact ⟨_, .intro (.methodParameter hcounted)⟩
    | false => exact ⟨_, .intro (.typeParameter hcounted)⟩
  | instantiation base isValueType args =>
    obtain ⟨_, hcoded⟩ := CodedToken.exists_derives_iff.2 hroot.1
    obtain ⟨_, hcounted⟩ := exists_derivesUnsigned_iff.2 hroot.2.length_le
    obtain ⟨_, heach⟩ := exists_each_iff.2 hchildren
    exact ⟨_, .intro (.instantiation hcoded hroot.2.nonempty hcounted heach)⟩
  | functionPointer header result params =>
    have hmethod : ∃ bytes, MethodSig.DerivesWith .shortest inner ⟨header, result, params⟩ bytes :=
      MethodSig.exists_derivesWith_iff.2 ⟨hroot, hchildren⟩
    obtain ⟨_, hmethod⟩ := hmethod
    exact ⟨_, .intro (.functionPointer hmethod)⟩
  | modified modifier required inner =>
    obtain ⟨_, hcoded⟩ := CodedToken.exists_derives_iff.2 hroot
    obtain ⟨_, hnested⟩ := hchildren inner List.mem_cons_self
    cases required with
    | true => exact ⟨_, .intro (.requiredModifier hcoded hnested)⟩
    | false => exact ⟨_, .intro (.optionalModifier hcoded hnested)⟩
  | pinned inner =>
    obtain ⟨_, hnested⟩ := hchildren inner List.mem_cons_self
    exact ⟨_, .intro (.pinned hnested)⟩

/-- A type has bytes exactly if it is well formed. -/
theorem exists_derives_iff {type : TypeSig} :
    (∃ bytes, type.Derives .shortest bytes) ↔ type.WellFormed := by
  induction type using induction_on_children with
  | step type ih =>
    constructor
    · rintro ⟨bytes, ⟨announced⟩⟩
      have hchildren : ∀ child ∈ type.children, ∃ bytes, child.Derives .shortest bytes :=
        announced.forall fun _ bytes h => ⟨bytes, h⟩
      exact .intro announced.rootWellFormed fun child hchild =>
        (ih child hchild).1 (hchildren child hchild)
    · rintro ⟨root, children⟩
      obtain ⟨bytes, hbytes⟩ := exists_derivesWith_of_root root
        fun child hchild => (ih child hchild).2 (children child hchild)
      exact ⟨bytes, derives_iff.2 hbytes⟩

end TypeSig

/-! ## Signatures -/

namespace Signature

/-- A signature has bytes exactly if it is well formed. -/
theorem exists_derives_iff {signature : Signature} :
    (∃ bytes, signature.Derives .shortest bytes) ↔ signature.WellFormed := by
  constructor
  · rintro ⟨bytes, h⟩
    refine ⟨?_, h.forall fun type bytes h => TypeSig.exists_derives_iff.1 ⟨bytes, h⟩⟩
    cases h with
    | method derived => exact (MethodSig.exists_derivesWith_iff.1 ⟨_, derived⟩).1
    | field | typeSpec => trivial
    | property counted => exact counted.le_maxUnsigned
    | locals nonempty counted | methodSpec nonempty counted =>
      exact ⟨nonempty, counted.le_maxUnsigned⟩
  · rintro ⟨hroot, htypes⟩
    have hbytes : ∀ type ∈ signature.types, ∃ bytes, type.Derives .shortest bytes :=
      fun type htype => TypeSig.exists_derives_iff.2 (htypes type htype)
    cases signature with
    | method m =>
      rw [types_method] at hbytes
      obtain ⟨_, hmethod⟩ := MethodSig.exists_derivesWith_iff.2 ⟨hroot, hbytes⟩
      exact ⟨_, .method hmethod⟩
    | field type =>
      obtain ⟨_, hderived⟩ := hbytes type List.mem_cons_self
      exact ⟨_, .field hderived⟩
    | property hasThis type params =>
      rw [types_property, List.forall_mem_cons] at hbytes
      obtain ⟨_, hcounted⟩ := exists_derivesUnsigned_iff.2 hroot
      obtain ⟨_, hderived⟩ := hbytes.1
      obtain ⟨_, heach⟩ := exists_each_iff.2 hbytes.2
      exact ⟨_, .property hcounted hderived heach⟩
    | locals types =>
      rw [types_locals] at hbytes
      obtain ⟨_, hcounted⟩ := exists_derivesUnsigned_iff.2 hroot.length_le
      obtain ⟨_, heach⟩ := exists_each_iff.2 hbytes
      exact ⟨_, .locals hroot.nonempty hcounted heach⟩
    | typeSpec type =>
      obtain ⟨_, hderived⟩ := hbytes type List.mem_cons_self
      exact ⟨_, .typeSpec hderived⟩
    | methodSpec args =>
      rw [types_methodSpec] at hbytes
      obtain ⟨_, hcounted⟩ := exists_derivesUnsigned_iff.2 hroot.length_le
      obtain ⟨_, heach⟩ := exists_each_iff.2 hbytes
      exact ⟨_, .methodSpec hroot.nonempty hcounted heach⟩

end Signature

end SignatureBlob
