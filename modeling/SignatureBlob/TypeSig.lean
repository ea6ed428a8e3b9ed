import SignatureBlob.Convention
import SignatureBlob.ElementType
import SignatureBlob.Token

/-!
# Types in signatures

The tree of a type as a signature describes it. Classes and value types are tokens, generic
parameters are positions, and a function pointer holds a whole method signature, whose header is
`MethodHeader`.

Main statements: `TypeSig.beq_eq_true_iff` (equality of trees is decided) and the equations
`TypeSig.depths_eq_map`.
-/

namespace SignatureBlob

/-! ## Parts of types -/

/-- The dimensions of a general array. Sizes and lower bounds may be given for the first dimensions
only. -/
structure ArrayShape where
  /-- The number of dimensions. -/
  rank : Nat
  /-- The sizes of the first dimensions. -/
  sizes : List Nat
  /-- The lower bounds of the first dimensions. -/
  lowerBounds : List Int
deriving DecidableEq, Repr

/-- All of a method signature but its types. -/
structure MethodHeader where
  /-- How the method is called. -/
  convention : Convention := .managed
  /-- The method is called on an instance. -/
  hasThis : Bool := false
  /-- The instance is listed as the first parameter. -/
  explicitThis : Bool := false
  /-- The method is marked as generic. -/
  generic : Bool := false
  /-- The number of generic parameters, zero for a method that is not generic. -/
  arity : Nat := 0
  /-- The place of the first parameter that only a vararg call site supplies. -/
  sentinel : Option Nat := none
deriving DecidableEq, Repr

namespace MethodHeader

/-- The flags of the header byte. -/
def flags (header : MethodHeader) : UInt8 :=
  HeaderBit.when HeaderBit.generic header.generic
    ||| HeaderBit.when HeaderBit.hasThis header.hasThis
    ||| HeaderBit.when HeaderBit.explicitThis header.explicitThis

/-- The first byte of the method signature. -/
def byte (header : MethodHeader) : UInt8 := header.convention.byte ||| header.flags

/-- Of a list along the parameters, the part before the sentinel. -/
def fixedPart {α : Type} (header : MethodHeader) (params : List α) : List α :=
  match header.sentinel with
  | none => params
  | some index => params.take index

/-- Of a list along the parameters, the part behind the sentinel. -/
def varArgPart {α : Type} (header : MethodHeader) (params : List α) : List α :=
  match header.sentinel with
  | none => []
  | some index => params.drop index

/-- The fixed parameters are those in front of the sentinel, or all. -/
theorem fixedPart_eq_take {α : Type} (header : MethodHeader) (params : List α) :
    header.fixedPart params = params.take (header.sentinel.getD params.length) := by
  cases h : header.sentinel <;> simp [fixedPart, h]

/-- The variable arguments are the parameters behind the sentinel, or none. -/
theorem varArgPart_eq_drop {α : Type} (header : MethodHeader) (params : List α) :
    header.varArgPart params = params.drop (header.sentinel.getD params.length) := by
  cases h : header.sentinel <;> simp [varArgPart, h]

/-- No parameter is lost at the sentinel. -/
theorem fixedPart_append_varArgPart {α : Type} (header : MethodHeader) (params : List α) :
    header.fixedPart params ++ header.varArgPart params = params := by
  rw [fixedPart_eq_take, varArgPart_eq_drop, List.take_append_drop]

end MethodHeader

/-! ## Types -/

/-- A type as a signature describes it. -/
inductive TypeSig where
  /-- A primitive type. -/
  | primitive (kind : Primitive)
  /-- A class. -/
  | classType (token : Token)
  /-- A value type. -/
  | valueType (token : Token)
  /-- An array of one dimension that starts at zero. -/
  | vector (element : TypeSig)
  /-- An array of any shape. -/
  | array (element : TypeSig) (shape : ArrayShape)
  /-- An unmanaged pointer. -/
  | pointer (target : TypeSig)
  /-- A managed reference. -/
  | byRef (target : TypeSig)
  /-- A generic parameter of the enclosing method, or else of the enclosing type. -/
  | genericParam (index : Nat) (ofMethod : Bool)
  /-- A generic class or value type with its arguments. -/
  | instantiation (base : Token) (isValueType : Bool) (args : List TypeSig)
  /-- A pointer to a method. -/
  | functionPointer (header : MethodHeader) (result : TypeSig) (params : List TypeSig)
  /-- A type with a custom modifier, which is required or optional. -/
  | modified (modifier : Token) (required : Bool) (inner : TypeSig)
  /-- The type of a local that stays at its address. -/
  | pinned (inner : TypeSig)
deriving Repr

namespace TypeSig

instance : Inhabited TypeSig := ⟨primitive .void⟩

/-! ## Equality -/

mutual

/-- Whether two types are the same tree. -/
def beq : TypeSig → TypeSig → Bool
  | primitive kind, primitive kind' => kind == kind'
  | classType token, classType token' => token == token'
  | valueType token, valueType token' => token == token'
  | vector element, vector element' => beq element element'
  | array element shape, array element' shape' => beq element element' && shape == shape'
  | pointer target, pointer target' => beq target target'
  | byRef target, byRef target' => beq target target'
  | genericParam index ofMethod, genericParam index' ofMethod' =>
    index == index' && ofMethod == ofMethod'
  | instantiation base isValueType args, instantiation base' isValueType' args' =>
    base == base' && isValueType == isValueType' && beqEach args args'
  | functionPointer header result params, functionPointer header' result' params' =>
    header == header' && beq result result' && beqEach params params'
  | modified modifier required inner, modified modifier' required' inner' =>
    modifier == modifier' && required == required' && beq inner inner'
  | pinned inner, pinned inner' => beq inner inner'
  | _, _ => false

/-- Whether two lists hold the same trees in the same order. -/
def beqEach : List TypeSig → List TypeSig → Bool
  | [], [] => true
  | type :: types, type' :: types' => beq type type' && beqEach types types'
  | _, _ => false

end

mutual

/-- A type is found equal to itself. -/
theorem beq_self : ∀ type : TypeSig, beq type type = true
  | primitive _ | classType _ | valueType _ | genericParam _ _ => by simp [beq]
  | vector element => by simpa [beq] using beq_self element
  | array element _ => by simpa [beq] using beq_self element
  | pointer target => by simpa [beq] using beq_self target
  | byRef target => by simpa [beq] using beq_self target
  | instantiation _ _ args => by simpa [beq] using beqEach_self args
  | functionPointer _ result params => by
    simpa [beq] using ⟨beq_self result, beqEach_self params⟩
  | modified _ _ inner => by simpa [beq] using beq_self inner
  | pinned inner => by simpa [beq] using beq_self inner

/-- Types are found equal to themselves one by one. -/
theorem beqEach_self : ∀ types : List TypeSig, beqEach types types = true
  | [] => rfl
  | type :: types => by simpa [beqEach] using ⟨beq_self type, beqEach_self types⟩

end

mutual

/-- Types that are found equal are the same. -/
theorem eq_of_beq : ∀ {type other : TypeSig}, beq type other = true → type = other
  | primitive _, other, h => by cases other <;> simp_all [beq]
  | classType _, other, h => by cases other <;> simp_all [beq]
  | valueType _, other, h => by cases other <;> simp_all [beq]
  | genericParam _ _, other, h => by cases other <;> simp_all [beq]
  | vector element, other, h => by
    cases other <;> simp only [beq, reduceCtorEq] at h
    rw [eq_of_beq h]
  | array element _, other, h => by
    cases other <;> simp only [beq, Bool.and_eq_true, beq_iff_eq, reduceCtorEq] at h
    rw [eq_of_beq h.1, h.2]
  | pointer target, other, h => by
    cases other <;> simp only [beq, reduceCtorEq] at h
    rw [eq_of_beq h]
  | byRef target, other, h => by
    cases other <;> simp only [beq, reduceCtorEq] at h
    rw [eq_of_beq h]
  | instantiation _ _ args, other, h => by
    cases other <;> simp only [beq, Bool.and_eq_true, beq_iff_eq, reduceCtorEq] at h
    rw [h.1.1, h.1.2, eq_of_beqEach h.2]
  | functionPointer _ result params, other, h => by
    cases other <;> simp only [beq, Bool.and_eq_true, beq_iff_eq, reduceCtorEq] at h
    rw [h.1.1, eq_of_beq h.1.2, eq_of_beqEach h.2]
  | modified _ _ inner, other, h => by
    cases other <;> simp only [beq, Bool.and_eq_true, beq_iff_eq, reduceCtorEq] at h
    rw [h.1.1, h.1.2, eq_of_beq h.2]
  | pinned inner, other, h => by
    cases other <;> simp only [beq, reduceCtorEq] at h
    rw [eq_of_beq h]

/-- Lists of types that are found equal one by one are the same. -/
theorem eq_of_beqEach : ∀ {types others : List TypeSig}, beqEach types others = true →
    types = others
  | [], others, h => by cases others <;> simp_all [beqEach]
  | type :: types, others, h => by
    cases others <;> simp only [beqEach, Bool.and_eq_true, reduceCtorEq] at h
    rw [eq_of_beq h.1, eq_of_beqEach h.2]

end

/-- Equality is found exactly of the same types. -/
theorem beq_eq_true_iff {type other : TypeSig} : beq type other = true ↔ type = other :=
  ⟨eq_of_beq, fun h => h ▸ beq_self type⟩

instance : DecidableEq TypeSig := fun _ _ => decidable_of_iff _ beq_eq_true_iff

/-! ## Views of a type -/

/-- What the first byte of the type announces. -/
def elementType : TypeSig → ElementType
  | primitive kind => .primitive kind
  | classType _ => .classType
  | valueType _ => .valueType
  | vector _ => .vector
  | array _ _ => .array
  | pointer _ => .pointer
  | byRef _ => .byRef
  | genericParam _ ofMethod => if ofMethod then .methodParameter else .typeParameter
  | instantiation _ _ _ => .instantiation
  | functionPointer _ _ _ => .functionPointer
  | modified _ required _ => if required then .requiredModifier else .optionalModifier
  | pinned _ => .pinned

/-- Whether the type is `void`. -/
def isVoid : TypeSig → Bool
  | primitive .void => true
  | _ => false

/-- The type without the modifiers and the pinning around it. -/
def unmodified : TypeSig → TypeSig
  | modified _ _ inner => unmodified inner
  | pinned inner => unmodified inner
  | type => type

/-- Whether the type is pinned, below modifiers or not. -/
def isPinned : TypeSig → Bool
  | pinned _ => true
  | modified _ _ inner => isPinned inner
  | _ => false

/-! ## Depth -/

/-- The largest of some depths, zero if there are none. -/
def deepest (depths : List Nat) : Nat := depths.foldr max 0

mutual

/-- The number of types on the longest way down the tree, the root and the leaf counted. -/
def depth : TypeSig → Nat
  | primitive _ | classType _ | valueType _ | genericParam _ _ => 1
  | vector element => depth element + 1
  | array element _ => depth element + 1
  | pointer target => depth target + 1
  | byRef target => depth target + 1
  | instantiation _ _ args => deepest (depths args) + 1
  | functionPointer _ result params => max (depth result) (deepest (depths params)) + 1
  | modified _ _ inner => depth inner + 1
  | pinned inner => depth inner + 1

/-- The depth of each of some types. -/
def depths : List TypeSig → List Nat
  | [] => []
  | type :: types => depth type :: depths types

end

/-- The depths of some types are the depth of each. -/
theorem depths_eq_map (types : List TypeSig) : depths types = types.map depth := by
  induction types with
  | nil => rfl
  | cons type types ih => simp [depths, ih]

/-- A type has at least one level. -/
theorem depth_pos (type : TypeSig) : 0 < depth type := by
  cases type <;> simp [depth]

end TypeSig

/-! ## Methods -/

/-- A method signature. -/
structure MethodSig where
  /-- All but the types. -/
  header : MethodHeader := {}
  /-- The type of the result. -/
  result : TypeSig := .primitive .void
  /-- The types of the parameters, those before and those behind the sentinel. -/
  params : List TypeSig := []
deriving DecidableEq, Repr

/-- The pointer to a method with the signature. -/
def MethodSig.pointer (method : MethodSig) : TypeSig :=
  .functionPointer method.header method.result method.params

end SignatureBlob
