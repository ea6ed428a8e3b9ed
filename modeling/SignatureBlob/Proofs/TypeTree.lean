import SignatureBlob.Signature

/-!
# The tree of a type

The types directly inside a type are its children. Depth and every property of all nodes of a type
are read off them, and a proof about all types may assume its claim of the children, whatever lists
they stand in.

Main statements: `TypeSig.induction_on_children` and `TypeSig.depth_le_succ_iff` (a type has at most
`n + 1` levels exactly when its children have at most `n`).
-/

namespace SignatureBlob

namespace TypeSig

/-! ## Children -/

/-- The types directly inside a type, in the order in which a blob holds them. -/
def children : TypeSig → List TypeSig
  | primitive _ | classType _ | valueType _ | genericParam _ _ => []
  | vector inner | pointer inner | byRef inner | pinned inner => [inner]
  | array element _ => [element]
  | instantiation _ _ args => args
  | functionPointer _ result params => result :: params
  | modified _ _ inner => [inner]

/-- A child is smaller than the type. -/
theorem sizeOf_lt_of_mem_children {child type : TypeSig} (h : child ∈ type.children) :
    sizeOf child < sizeOf type := by
  cases type with
  | primitive | classType | valueType | genericParam => simp [children] at h
  | vector | pointer | byRef | pinned | array | modified =>
    obtain rfl : child = _ := by simpa [children] using h
    simp only [vector.sizeOf_spec, pointer.sizeOf_spec, byRef.sizeOf_spec, pinned.sizeOf_spec,
      array.sizeOf_spec, modified.sizeOf_spec]
    omega
  | instantiation base isValueType args =>
    have hlt : sizeOf child < sizeOf args := List.sizeOf_lt_of_mem h
    simp only [instantiation.sizeOf_spec]
    omega
  | functionPointer header result params =>
    simp only [functionPointer.sizeOf_spec]
    rcases List.mem_cons.1 h with rfl | hparam
    · omega
    · have hlt : sizeOf child < sizeOf params := List.sizeOf_lt_of_mem hparam
      omega

/-- What holds of a type as soon as it holds of its children holds of all types. -/
@[elab_as_elim]
theorem induction_on_children {motive : TypeSig → Prop} (type : TypeSig)
    (step : ∀ type : TypeSig, (∀ child ∈ type.children, motive child) → motive type) :
    motive type :=
  step type fun child hchild =>
    have := sizeOf_lt_of_mem_children hchild
    induction_on_children child step
termination_by sizeOf type

/-! ## Depth by children -/

/-- The deepest is within a limit if all are. -/
theorem deepest_le_iff {depths : List Nat} {limit : Nat} :
    deepest depths ≤ limit ↔ ∀ depth ∈ depths, depth ≤ limit := by
  induction depths with
  | nil => simp [deepest]
  | cons depth depths ih =>
    have hcons : deepest (depth :: depths) = max depth (deepest depths) := rfl
    rw [hcons, Nat.max_le, ih, List.forall_mem_cons]

/-- A type has one level more than its deepest child. -/
theorem depth_eq (type : TypeSig) : type.depth = deepest (type.children.map depth) + 1 := by
  cases type <;> simp [depth, children, deepest, depths_eq_map]

/-- A type has at most `n + 1` levels exactly when its children have at most `n`. -/
theorem depth_le_succ_iff {type : TypeSig} {levels : Nat} :
    type.depth ≤ levels + 1 ↔ ∀ child ∈ type.children, child.depth ≤ levels := by
  rw [depth_eq, Nat.succ_le_succ_iff, deepest_le_iff, List.forall_mem_map]

end TypeSig

namespace Signature

/-- A signature has at most `n` levels exactly when each of its types has. -/
theorem depth_le_iff {signature : Signature} {levels : Nat} :
    signature.depth ≤ levels ↔ ∀ type ∈ signature.types, type.depth ≤ levels := by
  rw [depth, TypeSig.deepest_le_iff, List.forall_mem_map]

/-- A field has its type. -/
@[simp] theorem types_field (type : TypeSig) : (field type).types = [type] := rfl

/-- A property has its own type and those of its parameters. -/
@[simp] theorem types_property (hasThis : Bool) (type : TypeSig) (params : List TypeSig) :
    (property hasThis type params).types = type :: params := by
  simp [types, entries, Role.map_snd_number]

/-- Local variables have a type each. -/
@[simp] theorem types_locals (types : List TypeSig) : (locals types).types = types := by
  simp [Signature.types, entries, Role.map_snd_number]

/-- A type specification has its type. -/
@[simp] theorem types_typeSpec (type : TypeSig) : (typeSpec type).types = [type] := rfl

/-- An instance of a method has its type arguments. -/
@[simp] theorem types_methodSpec (args : List TypeSig) : (methodSpec args).types = args := by
  simp [types, entries, Role.map_snd_number]

end Signature

end SignatureBlob
