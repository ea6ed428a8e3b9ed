import SignatureBlob.Proofs.Grammar
import SignatureBlob.Subject

/-!
# Where types begin

The bytes that can stand in front of a type inside others, one rule for each production that holds
types: what the production has before the type, the types beside it whole. How often such bytes
stand one behind the other is how many types there are around the next one. This says of each place
in a blob whether a type begins there and how deep, without reading or any limit.

Main definitions: `TypeSig.Leads` and `SubjectKind.HasTypeAt`.
-/

namespace SignatureBlob

open Grammar CompressedInt

namespace Grammar

/-- Bytes of two sorts, one behind the other. -/
def Joined (first second : List UInt8 → Prop) (bytes : List UInt8) : Prop :=
  ∃ front back, first front ∧ second back ∧ bytes = front ++ back

/-- The first values of a list of `count`, but not all of them. -/
inductive Begun {α : Type} (item : α → List UInt8 → Prop) (count : Nat) : List UInt8 → Prop
  | intro {values : List α} {bytes : List UInt8} (each : Each item values bytes)
      (fewer : values.length < count) : Begun item count bytes

variable {α : Type} {item : α → List UInt8 → Prop} {bytes : List UInt8}

/-- A list of no values is never begun and unfinished. -/
theorem not_begun_zero : ¬ Begun item 0 bytes := by
  rintro ⟨-, fewer⟩
  exact Nat.not_lt_zero _ fewer

/-- Of a list that is begun either nothing stands there yet, or its first value and a rest that is
begun. -/
theorem begun_succ_iff {count : Nat} :
    Begun item (count + 1) bytes ↔
      bytes = [] ∨ ∃ value front back, item value front ∧ Begun item count back ∧
        bytes = front ++ back := by
  constructor
  · rintro ⟨each, fewer⟩
    cases each with
    | nil => exact .inl rfl
    | cons head tail => exact .inr ⟨_, _, _, head, .intro tail (Nat.lt_of_succ_lt_succ fewer), rfl⟩
  · rintro (rfl | ⟨value, front, back, head, ⟨tail, fewer⟩, rfl⟩)
    · exact .intro .nil (Nat.succ_pos count)
    · exact .intro (.cons head tail) (Nat.succ_lt_succ fewer)

end Grammar

/-! ## In front of a type directly inside -/

/-- The number of some types, and the first of them. -/
def TypeSig.BegunCounted (bytes : List UInt8) : Prop :=
  ∃ count front back, DerivesUnsigned .wideEnough count front ∧
    Begun (TypeSig.Derives .wideEnough) count back ∧ bytes = front ++ back

namespace MethodSig

/-- The first of `count` parameters, and the sentinel mark where it stands in front of the next or
of one of them. -/
inductive BegunParams (convention : Convention) (count : Nat) : List UInt8 → Prop
  | fixed {bytes : List UInt8} (begun : Begun (TypeSig.Derives .wideEnough) count bytes) :
      BegunParams convention count bytes
  | varArgs {params extra : List TypeSig} {bytes rest : List UInt8}
      (before : Each (TypeSig.Derives .wideEnough) params bytes)
      (behind : Each (TypeSig.Derives .wideEnough) extra rest)
      (fewer : params.length + extra.length < count)
      (admitted : convention.admitsVarArgs = true) :
      BegunParams convention count (bytes ++ ElementType.sentinelByte :: rest)

/-- What a method has in front of its result or of a parameter. -/
inductive Opens : List UInt8 → Prop
  | result {header : MethodHeader} {count : Nat} {first second : List UInt8}
      (headed : header.Derives .wideEnough first)
      (counted : DerivesUnsigned .wideEnough count second) : Opens (first ++ second)
  | param {header : MethodHeader} {count : Nat} {result : TypeSig}
      {first second third fourth : List UInt8} (headed : header.Derives .wideEnough first)
      (counted : DerivesUnsigned .wideEnough count second)
      (returned : result.Derives .wideEnough third)
      (begun : BegunParams header.convention count fourth) :
      Opens (first ++ (second ++ (third ++ fourth)))

end MethodSig

namespace TypeSig

/-- What an element type has in front of a type directly inside, its own byte left out. -/
inductive Introduces : ElementType → List UInt8 → Prop
  | vector : Introduces .vector []
  | array : Introduces .array []
  | pointer : Introduces .pointer []
  | byRef : Introduces .byRef []
  | instantiation {base : Token} {isValueType : Bool} {first second : List UInt8}
      (coded : CodedToken.Derives .wideEnough base first) (begun : BegunCounted second) :
      Introduces .instantiation
        ((if isValueType then ElementType.valueType else ElementType.classType).byte
          :: (first ++ second))
  | functionPointer {bytes : List UInt8} (method : MethodSig.Opens bytes) :
      Introduces .functionPointer bytes
  | requiredModifier {modifier : Token} {bytes : List UInt8}
      (coded : CodedToken.Derives .wideEnough modifier bytes) : Introduces .requiredModifier bytes
  | optionalModifier {modifier : Token} {bytes : List UInt8}
      (coded : CodedToken.Derives .wideEnough modifier bytes) : Introduces .optionalModifier bytes
  | pinned : Introduces .pinned []

/-- What a type has in front of a type directly inside. -/
inductive Opens : List UInt8 → Prop
  | intro {element : ElementType} {bytes : List UInt8} (introduced : Introduces element bytes) :
      Opens (element.byte :: bytes)

/-- What a type has in front of a type inside `outer` types, itself the first of them. -/
inductive Leads : (outer : Nat) → List UInt8 → Prop
  | here : Leads 0 []
  | inside {outer : Nat} {first second : List UInt8} (opened : Opens first)
      (led : Leads outer second) : Leads (outer + 1) (first ++ second)

variable {outer : Nat} {bytes : List UInt8}

/-- The outermost of the types around comes first, and the others inside it. -/
theorem leads_succ_iff : Leads (outer + 1) bytes ↔ Joined Opens (Leads outer) bytes := by
  constructor
  · rintro (_ | ⟨opened, led⟩)
    exact ⟨_, _, opened, led, rfl⟩
  · rintro ⟨first, second, opened, led, rfl⟩
    exact .inside opened led

/-- Each type around takes a byte at least. -/
theorem Leads.le_length (h : Leads outer bytes) : outer ≤ bytes.length := by
  induction h with
  | here => exact Nat.le_refl 0
  | inside opened led ih =>
    obtain ⟨introduced⟩ := opened
    rw [List.length_append, List.length_cons]
    omega

end TypeSig

/-! ## In signatures -/

/-- What a signature has in front of one of its types. -/
inductive Signature.Opens : SignatureKind → List UInt8 → Prop
  | method {bytes : List UInt8} (method : MethodSig.Opens bytes) : Opens .method bytes
  | field : Opens .field [0x06]
  | property {lead : UInt8} {count : Nat} {first : List UInt8}
      (led : lead ∈ SignatureKind.property.leads)
      (counted : DerivesUnsigned .wideEnough count first) : Opens .property (lead :: first)
  | propertyParam {lead : UInt8} {count : Nat} {type : TypeSig} {first second third : List UInt8}
      (led : lead ∈ SignatureKind.property.leads)
      (counted : DerivesUnsigned .wideEnough count first)
      (derived : type.Derives .wideEnough second)
      (begun : Begun (TypeSig.Derives .wideEnough) count third) :
      Opens .property (lead :: (first ++ (second ++ third)))
  | locals {bytes : List UInt8} (begun : TypeSig.BegunCounted bytes) :
      Opens .locals (0x07 :: bytes)
  | typeSpec : Opens .typeSpec []
  | methodSpec {bytes : List UInt8} (begun : TypeSig.BegunCounted bytes) :
      Opens .methodSpec (0x0A :: bytes)

namespace SubjectKind

/-- What a subject of the kind has in front of a type inside `outer` types. -/
def Leads : SubjectKind → (outer : Nat) → List UInt8 → Prop
  | type, outer => TypeSig.Leads outer
  | signature kind, outer => Joined (Signature.Opens kind) (TypeSig.Leads outer)

/-- Each type around takes a byte at least. -/
theorem Leads.le_length {kind : SubjectKind} {outer : Nat} {bytes : List UInt8}
    (h : kind.Leads outer bytes) : outer ≤ bytes.length := by
  cases kind with
  | type => exact TypeSig.Leads.le_length h
  | signature kind =>
    obtain ⟨front, back, -, hback, rfl⟩ := h
    rw [List.length_append]
    exact Nat.le_trans hback.le_length (Nat.le_add_left _ _)

/-- A type begins behind the first `offset` bytes of a blob of the kind, inside `outer` types. -/
structure HasTypeAt (kind : SubjectKind) (blob : List UInt8) (outer offset : Nat) : Prop where
  /-- The bytes before lead to a type with so many around it. -/
  leads : kind.Leads outer (blob.take offset)
  /-- The bytes from there on begin with a type. -/
  derives : ∃ (type : TypeSig) (bytes : List UInt8), type.Derives .wideEnough bytes ∧
    bytes <+: blob.drop offset

end SubjectKind

end SignatureBlob
