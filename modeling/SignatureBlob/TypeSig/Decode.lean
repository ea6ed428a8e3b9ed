import SignatureBlob.CodedToken
import SignatureBlob.DecodeOptions
import SignatureBlob.Reader
import SignatureBlob.TypeSig

/-!
# Reading types

A type is one element-type byte and what that byte announces. The rules of the grammar are stated
for any reader and a way `inner` to read the types inside. To a decoder a type that may hold `n + 1`
levels is the rule applied to the types that may hold `n`. So the limit on nesting is what makes
reading end, and a type that is nested too deep is refused before its first byte is read.

Main statements: `TypeSig.decodeWithin_zero` and `TypeSig.decodeWithin_succ` (the levels), and
`MethodHeader.ofByte_byte` (a header byte reads back).
-/

namespace SignatureBlob

/-! ## Array shapes -/

namespace Reader

variable {m : Type → Type} [Reader m]

/-- A counted list with at most as many members as the array has dimensions. -/
def bounded {α : Type} (item : Decoder α) (rank : Nat) (defect : Nat → Nat → Defect) :
    m (List α) := do
  let count ← CompressedInt.decodeUnsigned.located
  if rank < count.value then Decoder.refuse count.offset count.lead (defect count.value rank)
  else list (liftM item) count.value

/-- The rank, the sizes and the lower bounds of an array. -/
def shape : m ArrayShape := do
  let rank ← CompressedInt.decodeUnsigned.located
  if rank.value = 0 ∨ maxRank < rank.value then
    Decoder.refuse rank.offset rank.lead (.arrayRank rank.value)
  else
    let sizes ← bounded CompressedInt.decodeUnsigned rank.value .sizesExceedRank
    let lowerBounds ← bounded CompressedInt.decodeSigned rank.value .lowerBoundsExceedRank
    return { rank := rank.value, sizes, lowerBounds }

end Reader

namespace ArrayShape

/-- A counted list with at most as many members as the array has dimensions. -/
abbrev decodeBounded {α : Type} (item : Decoder α) (rank : Nat) (defect : Nat → Nat → Defect) :
    Decoder (List α) := Reader.bounded item rank defect

/-- The rank, the sizes and the lower bounds of an array. -/
abbrev decode : Decoder ArrayShape := Reader.shape

end ArrayShape

/-! ## Method headers -/

namespace MethodHeader

/-- What a header byte says, or why it says nothing. -/
def ofByte (byte : UInt8) : Except Defect MethodHeader :=
  match Convention.ofByte? (byte &&& HeaderBit.convention) with
  | none => .error (.unknownConvention byte)
  | some convention =>
    let hasThis := HeaderBit.isSet HeaderBit.hasThis byte
    let explicitThis := HeaderBit.isSet HeaderBit.explicitThis byte
    if HeaderBit.isSet HeaderBit.reserved byte then .error .reservedBit
    else if explicitThis && !hasThis then .error .explicitWithoutThis
    else .ok {
      convention, hasThis, explicitThis, generic := HeaderBit.isSet HeaderBit.generic byte }

/-- A header byte reads back, but for what stands elsewhere in the signature. -/
theorem ofByte_byte {header : MethodHeader} (h : header.explicitThis → header.hasThis) :
    ofByte header.byte = .ok { header with arity := 0, sentinel := none } := by
  obtain ⟨convention, hasThis, explicitThis, generic, arity, sentinel⟩ := header
  change ofByte (byte ⟨convention, hasThis, explicitThis, generic, 0, none⟩) =
    .ok ⟨convention, hasThis, explicitThis, generic, 0, none⟩
  cases explicitThis with
  | false => cases convention <;> cases hasThis <;> cases generic <;> rfl
  | true =>
    cases hasThis with
    | false => exact absurd (h rfl) Bool.false_ne_true
    | true => cases convention <;> cases generic <;> rfl

/-- The header byte and the number of generic parameters. -/
def decode : Decoder MethodHeader := do
  let offset ← .position
  let lead ← .byte
  match ofByte lead with
  | .error defect => .refuse offset lead defect
  | .ok header =>
    if header.generic then
      let arity ← CompressedInt.decodeUnsigned
      return { header with arity }
    else return header

end MethodHeader

/-! ## Methods -/

namespace Reader

variable {m : Type → Type} [Reader m] (inner : m TypeSig)

/-- What a turn does in front of the sentinel: it goes over the mark, or else reads a parameter. -/
def markOrParam (convention : Convention) : m (Option TypeSig) := do
  let offset ← Decoder.position
  let lead ← Decoder.peek
  if lead = ElementType.sentinelByte then
    if convention.admitsVarArgs then
      Decoder.skip
      return none
    else Decoder.refuse offset lead (.unexpectedSentinel convention)
  else return some (← inner)

/-- What a turn does behind the sentinel: it reads a parameter and refuses another mark. -/
def param (convention : Convention) : m TypeSig := do
  let offset ← Decoder.position
  let lead ← Decoder.peek
  if lead = ElementType.sentinelByte then
    Decoder.refuse offset lead (.unexpectedSentinel convention)
  else inner

/-- The next parameters, the first of which is at `index`, and the place of the sentinel. The turn
that goes over the mark leaves the number of parameters to come as it is. -/
def params (convention : Convention) :
    (count : Nat) → (index : Nat) → m (List TypeSig × Option Nat)
  | 0, _ => return ([], none)
  | count + 1, index => do
    match ← turn (markOrParam inner convention) with
    | none =>
      let params ← items (param inner convention) (count + 1)
      return (params, some index)
    | some param =>
      let (params, sentinel) ← params convention count (index + 1)
      return (param :: params, sentinel)

/-- The result and the parameters, the number of which has just been read. -/
def resultAndParams (convention : Convention) (count : Nat) :
    m (TypeSig × List TypeSig × Option Nat) := do
  let result ← inner
  let (params, sentinel) ←
    tally (params inner convention count 0) count fun found => found.1.length
  return (result, params, sentinel)

/-- A method signature whose types are read by `inner`. -/
def method : m MethodSig := do
  let header ← MethodHeader.decode
  let count ← CompressedInt.decodeUnsigned
  let (result, params, sentinel) ←
    tally (resultAndParams inner header.convention count) count fun found => found.2.1.length
  return { header := { header with sentinel }, result, params }

end Reader

/-- A method signature whose types are read by `inner`. -/
abbrev MethodSig.decodeWith (inner : Decoder TypeSig) : Decoder MethodSig := Reader.method inner

/-! ## Types -/

/-- Whether a generic type is announced as a value type or as a class. -/
def TypeSig.decodeBaseMarker : Decoder Bool := do
  let offset ← .position
  let lead ← .peek
  if lead = ElementType.classType.byte then
    .skip
    return false
  else if lead = ElementType.valueType.byte then
    .skip
    return true
  else .refuse offset lead .instantiationMarker

namespace Reader

variable {m : Type → Type} [Reader m] (inner : m TypeSig)

/-- A counted list of types, of which there is at least one. -/
def nonempty (ifEmpty : Defect) : m (List TypeSig) := do
  let count ← CompressedInt.decodeUnsigned.located
  if count.value = 0 then Decoder.refuse count.offset 0 ifEmpty
  else list inner count.value

/-- A generic type and its arguments. -/
def instantiation : m TypeSig := do
  let isValueType ← TypeSig.decodeBaseMarker
  let base ← CodedToken.decode
  let args ← nonempty inner .noTypeArguments
  return .instantiation base isValueType args

/-- A modifier and the type that it modifies. -/
def modified (required : Bool) : m TypeSig := do
  let modifier ← CodedToken.decode
  let type ← inner
  return .modified modifier required type

/-- What the element type announces, its own byte being read. -/
def body : ElementType → m TypeSig
  | .primitive kind => return .primitive kind
  | .pointer => return .pointer (← inner)
  | .byRef => return .byRef (← inner)
  | .valueType => return .valueType (← CodedToken.decode)
  | .classType => return .classType (← CodedToken.decode)
  | .typeParameter => return .genericParam (← CompressedInt.decodeUnsigned) false
  | .array => do
    let element ← inner
    let shape ← shape
    return .array element shape
  | .instantiation => instantiation inner
  | .functionPointer => return (← method inner).pointer
  | .vector => return .vector (← inner)
  | .methodParameter => return .genericParam (← CompressedInt.decodeUnsigned) true
  | .requiredModifier => modified inner true
  | .optionalModifier => modified inner false
  | .pinned => return .pinned (← inner)

/-- A type whose inner types are read by `inner`. -/
def typeWith : m TypeSig := do
  let offset ← Decoder.position
  let lead ← Decoder.byte
  match ElementType.ofByte? lead with
  | none => Decoder.fail (.unknownElementType offset lead)
  | some element => body inner element

end Reader

namespace TypeSig

/-- A counted list of types, of which there is at least one. -/
abbrev decodeNonempty (inner : Decoder TypeSig) (ifEmpty : Defect) : Decoder (List TypeSig) :=
  Reader.nonempty inner ifEmpty

/-- A generic type and its arguments. -/
abbrev decodeInstantiation (inner : Decoder TypeSig) : Decoder TypeSig := Reader.instantiation inner

/-- A modifier and the type that it modifies. -/
abbrev decodeModified (inner : Decoder TypeSig) (required : Bool) : Decoder TypeSig :=
  Reader.modified inner required

/-- What the element type announces, its own byte being read. -/
abbrev decodeBody (inner : Decoder TypeSig) (element : ElementType) : Decoder TypeSig :=
  Reader.body inner element

/-- A type whose inner types are read by `inner`. -/
abbrev decodeWith (inner : Decoder TypeSig) : Decoder TypeSig := Reader.typeWith inner

/-- A type with at most `levels` types nested in one another, out of the `limit` that a whole type
may have. -/
def decodeWithin (limit : Nat) : (levels : Nat) → Decoder TypeSig
  | 0 => ⟨fun start => .error (.maxDepthExceeded limit start.position) start⟩
  | levels + 1 => ⟨fun start => (decodeWith (decodeWithin limit levels)).run start⟩

/-- With no levels left the guard trips before the first byte of a type. -/
theorem decodeWithin_zero (limit : Nat) (start : Cursor) :
    (decodeWithin limit 0).run start = .error (.maxDepthExceeded limit start.position) start := rfl

/-- With one level more the types inside have the levels that are left. -/
theorem decodeWithin_succ (limit levels : Nat) :
    decodeWithin limit (levels + 1) = decodeWith (decodeWithin limit levels) := rfl

/-- A type within the limit of the options. -/
def decode (options : DecodeOptions) : Decoder TypeSig :=
  decodeWithin options.limit options.limit

end TypeSig

end SignatureBlob
