import SignatureBlob.CodedToken
import SignatureBlob.Proofs.TypeTree

/-!
# The grammar of blobs

Which bytes stand for which value, one rule for each production and without any reading or writing.
The rules for what holds types are stated for a relation `inner` between the types inside and their
bytes; `TypeSig.Derives` closes the circle. An integer may take every form that is wide enough for
it, or, in the narrower grammar, the shortest one only.

Main definitions: `TypeSig.Derives` and `Signature.Derives`.
-/

namespace SignatureBlob

namespace Grammar

/-! ## Forms and lists -/

/-- How freely the forms of integers may be chosen. -/
inductive Latitude where
  /-- Every form that is wide enough will do. -/
  | wideEnough
  /-- Only the shortest of these will do. -/
  | shortest
deriving DecidableEq, Repr

/-- Whether a form will do for an integer whose shortest form is `best`. -/
def Latitude.Admits : Latitude → CompressedInt.Form → Option CompressedInt.Form → Prop
  | wideEnough, _, _ => True
  | shortest, form, best => best = some form

/-- The values of a list one behind the other. -/
inductive Each {α : Type} (item : α → List UInt8 → Prop) : List α → List UInt8 → Prop
  | nil : Each item [] []
  | cons {value : α} {values : List α} {bytes rest : List UInt8} (head : item value bytes)
      (tail : Each item values rest) : Each item (value :: values) (bytes ++ rest)

end Grammar

open Grammar

variable {latitude : Latitude} {inner : TypeSig → List UInt8 → Prop} {bytes : List UInt8}

/-! ## Integers and tokens -/

namespace CompressedInt

/-- An unsigned integer in a form that is wide enough. -/
inductive DerivesUnsigned (latitude : Latitude) : Nat → List UInt8 → Prop
  | intro {form : Form} {value : Nat} (wide : value < form.span)
      (admitted : latitude.Admits form (Form.forUnsigned? value)) :
      DerivesUnsigned latitude value (form.encode value)

/-- A signed integer in a form that is wide enough; what is written is its payload in that form. -/
inductive DerivesSigned (latitude : Latitude) : Int → List UInt8 → Prop
  | intro {form : Form} {value : Int} (wide : form.Reaches value)
      (admitted : latitude.Admits form (Form.forSigned? value)) :
      DerivesSigned latitude value (form.encode (form.payload value))

end CompressedInt

open CompressedInt

/-- A token is the number of a row, of at most 24 bits, and the tag of one of three tables. -/
inductive CodedToken.Derives (latitude : Latitude) : Token → List UInt8 → Prop
  | intro {table : TypeTable} {row : Nat} {bytes : List UInt8} (narrow : row < Token.rowLimit)
      (coded : DerivesUnsigned latitude (CodedToken.code table row) bytes) :
      CodedToken.Derives latitude (.ofParts table row) bytes

/-! ## Array shapes -/

/-- The rank, and then the sizes and the lower bounds behind their numbers, at most one of each for
a dimension. -/
inductive ArrayShape.Derives (latitude : Latitude) : ArrayShape → List UInt8 → Prop
  | intro {rank : Nat} {sizes : List Nat} {lowerBounds : List Int}
      {first second third fourth fifth : List UInt8} (positive : 0 < rank)
      (bounded : rank ≤ maxRank)
      (fewSizes : sizes.length ≤ rank) (fewBounds : lowerBounds.length ≤ rank)
      (ranked : DerivesUnsigned latitude rank first)
      (sizeCount : DerivesUnsigned latitude sizes.length second)
      (eachSize : Each (DerivesUnsigned latitude) sizes third)
      (boundCount : DerivesUnsigned latitude lowerBounds.length fourth)
      (eachBound : Each (DerivesSigned latitude) lowerBounds fifth) :
      ArrayShape.Derives latitude ⟨rank, sizes, lowerBounds⟩
        (first ++ (second ++ (third ++ (fourth ++ fifth))))

/-! ## Methods -/

namespace MethodHeader

/-- The first byte of a method says all of the header but its numbers. -/
structure LedBy (header : MethodHeader) (lead : UInt8) : Prop where
  /-- The low four bits are the number of the convention. -/
  convention : lead &&& HeaderBit.convention = header.convention.byte
  /-- The bit without a meaning is clear. -/
  reserved : HeaderBit.isSet HeaderBit.reserved lead = false
  generic : HeaderBit.isSet HeaderBit.generic lead = header.generic
  hasThis : HeaderBit.isSet HeaderBit.hasThis lead = header.hasThis
  explicitThis : HeaderBit.isSet HeaderBit.explicitThis lead = header.explicitThis
  /-- Only a method that is called on an instance can list it. -/
  instance_of_explicit : header.explicitThis = true → header.hasThis = true

/-- The first byte says nothing of the numbers. -/
theorem LedBy.with_numbers {header : MethodHeader} {lead : UInt8} (h : header.LedBy lead)
    (arity : Nat) (sentinel : Option Nat) :
    ({ header with arity, sentinel } : MethodHeader).LedBy lead :=
  ⟨h.convention, h.reserved, h.generic, h.hasThis, h.explicitThis, h.instance_of_explicit⟩

/-- The first byte, and for a generic method the number of its parameters behind it. -/
inductive Derives (latitude : Latitude) : MethodHeader → List UInt8 → Prop
  | plain {header : MethodHeader} {lead : UInt8} (led : header.LedBy lead)
      (flag : header.generic = false) (none : header.arity = 0) : Derives latitude header [lead]
  | generic {header : MethodHeader} {lead : UInt8} {bytes : List UInt8} (led : header.LedBy lead)
      (flag : header.generic = true) (counted : DerivesUnsigned latitude header.arity bytes) :
      Derives latitude header (lead :: bytes)

/-- The sentinel is not written in the header. -/
theorem Derives.with_sentinel {header : MethodHeader} (h : header.Derives latitude bytes)
    (sentinel : Option Nat) : ({ header with sentinel } : MethodHeader).Derives latitude bytes := by
  cases h with
  | plain led flag none => exact .plain (led.with_numbers _ sentinel) flag none
  | generic led flag counted => exact .generic (led.with_numbers _ sentinel) flag counted

end MethodHeader

namespace MethodSig

/-- The parameters of a method. The sentinel mark may stand in front of one of them. -/
inductive DerivesParams (inner : TypeSig → List UInt8 → Prop) :
    (sentinel : Option Nat) → List TypeSig → List UInt8 → Prop
  | fixed {params : List TypeSig} {bytes : List UInt8} (each : Each inner params bytes) :
      DerivesParams inner none params bytes
  | varArgs {params extra : List TypeSig} {bytes rest : List UInt8}
      (before : Each inner params bytes) (behind : Each inner extra rest) (nonempty : extra ≠ []) :
      DerivesParams inner (some params.length) (params ++ extra)
        (bytes ++ ElementType.sentinelByte :: rest)

/-- The header, the number of parameters without the sentinel, the result and the parameters. Only
some conventions have a sentinel. -/
inductive DerivesWith (latitude : Latitude) (inner : TypeSig → List UInt8 → Prop) :
    MethodSig → List UInt8 → Prop
  | intro {header : MethodHeader} {result : TypeSig} {params : List TypeSig}
      {first second third fourth : List UInt8} (headed : header.Derives latitude first)
      (counted : DerivesUnsigned latitude params.length second) (returned : inner result third)
      (listed : DerivesParams inner header.sentinel params fourth)
      (admitted : header.sentinel.isSome = true → header.convention.admitsVarArgs = true) :
      DerivesWith latitude inner ⟨header, result, params⟩ (first ++ (second ++ (third ++ fourth)))

/-- No parameters take no bytes and have no sentinel. -/
theorem derivesParams_nil_iff {sentinel : Option Nat} :
    DerivesParams inner sentinel [] bytes ↔ sentinel = none ∧ bytes = [] := by
  constructor
  · intro h
    generalize hparams : ([] : List TypeSig) = params at h
    cases h with
    | fixed each =>
      subst hparams
      cases each
      exact ⟨rfl, rfl⟩
    | varArgs _ _ nonempty => exact absurd (List.append_eq_nil_iff.1 hparams.symm).2 nonempty
  · rintro ⟨rfl, rfl⟩
    exact .fixed .nil

/-- The sentinel mark stands in front of the first parameter, behind it or nowhere. -/
theorem derivesParams_cons_iff {sentinel : Option Nat} {param : TypeSig} {params : List TypeSig} :
    DerivesParams inner sentinel (param :: params) bytes ↔
      (∃ place front back, inner param front ∧ DerivesParams inner place params back ∧
        sentinel = place.map (· + 1) ∧ bytes = front ++ back) ∨
      (∃ front back, inner param front ∧ Each inner params back ∧
        sentinel = some 0 ∧ bytes = ElementType.sentinelByte :: (front ++ back)) := by
  constructor
  · intro h
    generalize hparams : param :: params = all at h
    cases h with
    | fixed each =>
      subst hparams
      obtain - | ⟨head, tail⟩ := each
      exact .inl ⟨none, _, _, head, .fixed tail, rfl, rfl⟩
    | varArgs before behind nonempty =>
      cases before with
      | nil =>
        obtain rfl : param :: params = _ := hparams
        obtain - | ⟨head, tail⟩ := behind
        exact .inr ⟨_, _, head, tail, rfl, rfl⟩
      | cons head tail =>
        obtain ⟨rfl, rfl⟩ := List.cons.inj hparams
        exact .inl ⟨some _, _, _, head, .varArgs tail behind nonempty, rfl, List.append_assoc _ _ _⟩
  · rintro (⟨place, front, back, hparam, hparams, rfl, rfl⟩ |
      ⟨front, back, hparam, heach, rfl, rfl⟩)
    · cases hparams with
      | fixed each => exact .fixed (.cons hparam each)
      | varArgs before behind nonempty =>
        rw [← List.append_assoc]
        exact .varArgs (.cons hparam before) behind nonempty
    · exact .varArgs .nil (.cons hparam heach) (List.cons_ne_nil _ _)

end MethodSig

/-! ## Types -/

namespace TypeSig

/-- What an element type announces, its own byte left out. -/
inductive Announces (latitude : Latitude) (inner : TypeSig → List UInt8 → Prop) :
    ElementType → TypeSig → List UInt8 → Prop
  | primitive (kind : Primitive) : Announces latitude inner (.primitive kind) (.primitive kind) []
  | classType {token : Token} {bytes : List UInt8}
      (coded : CodedToken.Derives latitude token bytes) :
      Announces latitude inner .classType (.classType token) bytes
  | valueType {token : Token} {bytes : List UInt8}
      (coded : CodedToken.Derives latitude token bytes) :
      Announces latitude inner .valueType (.valueType token) bytes
  | vector {element : TypeSig} {bytes : List UInt8} (nested : inner element bytes) :
      Announces latitude inner .vector (.vector element) bytes
  | array {element : TypeSig} {shape : ArrayShape} {bytes rest : List UInt8}
      (nested : inner element bytes) (shaped : shape.Derives latitude rest) :
      Announces latitude inner .array (.array element shape) (bytes ++ rest)
  | pointer {target : TypeSig} {bytes : List UInt8} (nested : inner target bytes) :
      Announces latitude inner .pointer (.pointer target) bytes
  | byRef {target : TypeSig} {bytes : List UInt8} (nested : inner target bytes) :
      Announces latitude inner .byRef (.byRef target) bytes
  | typeParameter {index : Nat} {bytes : List UInt8}
      (counted : DerivesUnsigned latitude index bytes) :
      Announces latitude inner .typeParameter (.genericParam index false) bytes
  | methodParameter {index : Nat} {bytes : List UInt8}
      (counted : DerivesUnsigned latitude index bytes) :
      Announces latitude inner .methodParameter (.genericParam index true) bytes
  | instantiation {base : Token} {isValueType : Bool} {args : List TypeSig}
      {first second third : List UInt8} (coded : CodedToken.Derives latitude base first)
      (nonempty : args ≠ []) (counted : DerivesUnsigned latitude args.length second)
      (each : Each inner args third) :
      Announces latitude inner .instantiation (.instantiation base isValueType args)
        ((if isValueType then ElementType.valueType else ElementType.classType).byte
          :: (first ++ (second ++ third)))
  | functionPointer {header : MethodHeader} {result : TypeSig} {params : List TypeSig}
      {bytes : List UInt8}
      (method : MethodSig.DerivesWith latitude inner ⟨header, result, params⟩ bytes) :
      Announces latitude inner .functionPointer (.functionPointer header result params) bytes
  | requiredModifier {modifier : Token} {type : TypeSig} {bytes rest : List UInt8}
      (coded : CodedToken.Derives latitude modifier bytes) (nested : inner type rest) :
      Announces latitude inner .requiredModifier (.modified modifier true type) (bytes ++ rest)
  | optionalModifier {modifier : Token} {type : TypeSig} {bytes rest : List UInt8}
      (coded : CodedToken.Derives latitude modifier bytes) (nested : inner type rest) :
      Announces latitude inner .optionalModifier (.modified modifier false type) (bytes ++ rest)
  | pinned {type : TypeSig} {bytes : List UInt8} (nested : inner type bytes) :
      Announces latitude inner .pinned (.pinned type) bytes

/-- A type is an element-type byte and what that announces, `inner` deriving the types inside. -/
inductive DerivesWith (latitude : Latitude) (inner : TypeSig → List UInt8 → Prop) :
    TypeSig → List UInt8 → Prop
  | intro {element : ElementType} {type : TypeSig} {bytes : List UInt8}
      (announced : Announces latitude inner element type bytes) :
      DerivesWith latitude inner type (element.byte :: bytes)

/-- The bytes derive the type: it is an element-type byte and what that announces, and so are the
types inside. -/
inductive Derives (latitude : Latitude) : TypeSig → List UInt8 → Prop
  | intro {element : ElementType} {type : TypeSig} {bytes : List UInt8}
      (announced : Announces latitude (Derives latitude) element type bytes) :
      Derives latitude type (element.byte :: bytes)

/-- A type is derived by its rule from the types inside. -/
theorem derives_iff {type : TypeSig} :
    Derives latitude type bytes ↔ DerivesWith latitude (Derives latitude) type bytes := by
  constructor
  · rintro ⟨announced⟩
    exact .intro announced
  · rintro ⟨announced⟩
    exact .intro announced

end TypeSig

/-! ## Signatures -/

namespace Signature

/-- The lead byte of a kind that has one, and the types of the signature as `inner` derives them. -/
inductive DerivesWith (latitude : Latitude) (inner : TypeSig → List UInt8 → Prop) :
    Signature → List UInt8 → Prop
  | method {method : MethodSig} {bytes : List UInt8}
      (derived : method.DerivesWith latitude inner bytes) :
      DerivesWith latitude inner (.method method) bytes
  | field {type : TypeSig} {bytes : List UInt8} (derived : inner type bytes) :
      DerivesWith latitude inner (.field type) (0x06 :: bytes)
  | property {hasThis : Bool} {type : TypeSig} {params : List TypeSig}
      {first second third : List UInt8} (counted : DerivesUnsigned latitude params.length first)
      (derived : inner type second) (each : Each inner params third) :
      DerivesWith latitude inner (.property hasThis type params)
        ((if hasThis then 0x28 else 0x08) :: (first ++ (second ++ third)))
  | locals {types : List TypeSig} {first second : List UInt8} (nonempty : types ≠ [])
      (counted : DerivesUnsigned latitude types.length first) (each : Each inner types second) :
      DerivesWith latitude inner (.locals types) (0x07 :: (first ++ second))
  | typeSpec {type : TypeSig} {bytes : List UInt8} (derived : inner type bytes) :
      DerivesWith latitude inner (.typeSpec type) bytes
  | methodSpec {args : List TypeSig} {first second : List UInt8} (nonempty : args ≠ [])
      (counted : DerivesUnsigned latitude args.length first) (each : Each inner args second) :
      DerivesWith latitude inner (.methodSpec args) (0x0A :: (first ++ second))

/-- The bytes derive the signature. -/
def Derives (latitude : Latitude) : Signature → List UInt8 → Prop :=
  DerivesWith latitude (TypeSig.Derives latitude)

end Signature

end SignatureBlob
