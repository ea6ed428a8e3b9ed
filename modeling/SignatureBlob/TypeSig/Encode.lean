import SignatureBlob.CodedToken
import SignatureBlob.TypeSig

/-!
# Writing types

A type is written as its element-type byte and what that byte announces, every integer in its
shortest form. A type that no blob could hold is written up to the first thing that is wrong.

Main definition: `TypeSig.put`. Main statement: `TypeSig.putEach_eq_map`.
-/

namespace SignatureBlob

variable {ω : Type} [Writer ω]

open CompressedInt Writer

/-! ## Array shapes -/

/-- The rank, the sizes and the lower bounds of an array, whose byte is to blame if they do not go
together. -/
def ArrayShape.put (shape : ArrayShape) : ω :=
  let observed := ElementType.array.byte
  require (0 < shape.rank ∧ shape.rank ≤ maxRank) observed (.arrayRank shape.rank)
    ++ require (shape.sizes.length ≤ shape.rank ∧ shape.lowerBounds.length ≤ shape.rank) observed
      (.shapeExceedsRank shape.rank)
    ++ putUnsigned shape.rank
    ++ putCount observed .arraySizes shape.sizes.length
    ++ concat (shape.sizes.map putUnsigned)
    ++ putCount observed .lowerBounds shape.lowerBounds.length
    ++ concat (shape.lowerBounds.map putSigned)

/-- The shape of an array as it is written. -/
abbrev ArrayShape.emit (shape : ArrayShape) : Emission := shape.put

/-! ## Methods -/

namespace MethodHeader

/-- Whether the sentinel, if there is one, stands before one of `count` parameters of a method that
may have it. -/
def sentinelFits (header : MethodHeader) (count : Nat) : Bool :=
  match header.sentinel with
  | none => true
  | some index => header.convention.admitsVarArgs && index < count

/-- What must hold of the header for the method to have an encoding. -/
def putChecks (header : MethodHeader) (count : Nat) : ω :=
  require (!header.explicitThis || header.hasThis) header.byte .explicitWithoutThis
    ++ require (header.generic || header.arity == 0) header.byte
      (.arityWithoutGeneric header.arity)
    ++ require (header.sentinelFits count) ElementType.sentinelByte
      (.sentinelPlace (header.sentinel.getD 0) header.convention count)

/-- Parameters one behind the other, the first of which is at `index`, and the mark of the sentinel
in front of the one at its place. -/
def putParams (sentinel : Option Nat) : (index : Nat) → List ω → ω
  | _, [] => empty
  | index, param :: params =>
    (if sentinel = some index then Writer.byte ElementType.sentinelByte else empty)
      ++ param
      ++ putParams sentinel (index + 1) params

/-- A method signature from its types as they are written. -/
def put (header : MethodHeader) (result : ω) (params : List ω) : ω :=
  header.putChecks params.length
    ++ Writer.byte header.byte
    ++ (if header.generic then putUnsigned header.arity else empty)
    ++ putCount header.byte .parameters params.length
    ++ result
    ++ putParams header.sentinel 0 params

/-- The checks of a header as they are made. -/
abbrev emitChecks (header : MethodHeader) (count : Nat) : Emission := header.putChecks count

/-- A method signature as it is written. -/
abbrev emit (header : MethodHeader) (result : Emission) (params : List Emission) : Emission :=
  header.put result params

end MethodHeader

/-! ## Types -/

namespace TypeSig

/-- An element-type byte and what it announces. -/
def announce (element : ElementType) (rest : ω) : ω := byte element.byte ++ rest

mutual

/-- A type. -/
def put : TypeSig → ω
  | primitive kind => announce (.primitive kind) empty
  | classType token => announce .classType (CodedToken.put token)
  | valueType token => announce .valueType (CodedToken.put token)
  | vector element => announce .vector (put element)
  | array element shape => announce .array (put element ++ shape.put)
  | pointer target => announce .pointer (put target)
  | byRef target => announce .byRef (put target)
  | genericParam index ofMethod =>
    announce (if ofMethod then .methodParameter else .typeParameter) (putUnsigned index)
  | instantiation base isValueType args =>
    announce .instantiation
      (require (!args.isEmpty) ElementType.instantiation.byte .noTypeArguments
        ++ byte (if isValueType then ElementType.valueType else ElementType.classType).byte
        ++ CodedToken.put base
        ++ putCount ElementType.instantiation.byte .typeArguments args.length
        ++ concat (putEach args))
  | functionPointer header result params =>
    announce .functionPointer (header.put (put result) (putEach params))
  | modified modifier required inner =>
    announce (if required then .requiredModifier else .optionalModifier)
      (CodedToken.put modifier ++ put inner)
  | pinned inner => announce .pinned (put inner)

/-- Each of some types. -/
def putEach : List TypeSig → List ω
  | [] => []
  | type :: types => put type :: putEach types

end

/-- Types are written each by itself. -/
theorem putEach_eq_map (types : List TypeSig) : (putEach types : List ω) = types.map put := by
  induction types with
  | nil => rfl
  | cons type types ih => simp [putEach, ih]

/-- A type as it is written. -/
abbrev emit (type : TypeSig) : Emission := type.put

/-- Each of some types as it is written. -/
abbrev emitEach (types : List TypeSig) : List Emission := putEach types

end TypeSig

/-- A method signature as it is written. -/
def MethodSig.emit (method : MethodSig) : Emission :=
  method.header.emit method.result.emit (TypeSig.emitEach method.params)

end SignatureBlob
