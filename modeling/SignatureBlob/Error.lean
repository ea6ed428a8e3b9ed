import SignatureBlob.Convention
import SignatureBlob.SignatureKind
import SignatureBlob.Token

/-!
# Errors

Reading or writing a blob stops at the first thing that is wrong with it. An error says where that
is and why; for an encoding that fits no rule, `Defect` names the rule and `Error` adds the place
and the byte found there. The wording is in `Defect.message` and `Error.message` alone.
-/

namespace SignatureBlob

/-! ## Defects -/

/-- The lists whose length a blob states. -/
inductive Listed where
  | arraySizes
  | lowerBounds
  | typeArguments
  | parameters
  | locals
deriving DecidableEq, Repr

/-- The listed things in words. -/
def Listed.words : Listed → String
  | arraySizes => "array sizes"
  | lowerBounds => "lower bounds"
  | typeArguments => "type arguments"
  | parameters => "parameters"
  | locals => "locals"

/-- The highest rank of an array. -/
def maxRank : Nat := 32

/-- Why an encoding fits no rule. -/
inductive Defect where
  /-- The null marker stands where a number has to be. -/
  | nullMarker
  /-- No compressed integer begins with this byte. -/
  | integerLead
  /-- The number is too large for a compressed unsigned integer. -/
  | unsignedRange (value : Nat)
  /-- The number is out of reach of a compressed signed integer. -/
  | signedRange (value : Int)
  /-- The coded token has the tag that belongs to no table. -/
  | codedTag (coded : Nat)
  /-- The coded token has a row that no token can hold. -/
  | codedRow (row : Nat)
  /-- The token points into a table that holds no types. -/
  | tokenTable (token : Token)
  /-- The rank of the array is zero or above `maxRank`. -/
  | arrayRank (rank : Nat)
  /-- The array states more sizes than it has dimensions. -/
  | sizesExceedRank (count rank : Nat)
  /-- The array states more lower bounds than it has dimensions. -/
  | lowerBoundsExceedRank (count rank : Nat)
  /-- The array to be written has more sizes or lower bounds than dimensions. -/
  | shapeExceedsRank (rank : Nat)
  /-- The generic type is announced neither as a class nor as a value type. -/
  | instantiationMarker
  /-- The generic type has no arguments. -/
  | noTypeArguments
  /-- The header byte names no calling convention. -/
  | unknownConvention (header : UInt8)
  /-- The header byte has the bit without a meaning. -/
  | reservedBit
  /-- The instance is listed as a parameter of a method without one. -/
  | explicitWithoutThis
  /-- The method to be written has generic parameters but is not marked as generic. -/
  | arityWithoutGeneric (arity : Nat)
  /-- The sentinel comes a second time, or the convention has none. -/
  | unexpectedSentinel (convention : Convention)
  /-- The sentinel to be written stands before no parameter, or the convention has none. -/
  | sentinelPlace (index : Nat) (convention : Convention) (parameters : Nat)
  /-- The first byte is not one that the kind of signature begins with. -/
  | wrongLead (kind : SignatureKind)
  /-- The signature of local variables has none. -/
  | noLocals
  /-- The instantiation of a generic method has no arguments. -/
  | noMethodArguments
  /-- The list to be written has more members than its count can say. -/
  | tooMany (listed : Listed) (count : Nat)
  /-- Bytes are left over behind the signature. -/
  | trailing (count : Nat)
deriving DecidableEq, Repr

/-- The defect in words. -/
def Defect.message : Defect → String
  | nullMarker => "Null marker is not valid for a compressed uint here"
  | integerLead => "Invalid compressed uint prefix"
  | unsignedRange value => "Value " ++ toString value ++ " exceeds the compressed uint range"
  | signedRange value => "Value " ++ toString value ++ " exceeds the compressed int range"
  | codedTag coded => "Invalid TypeDefOrRef coded index - " ++ toString coded
  | codedRow row => "TypeDefOrRef row 0x" ++ Hexadecimal.shortestUpper row ++ " exceeds 24 bits"
  | tokenTable token => "Token " ++ token.text ++ " is not a TypeDef, TypeRef or TypeSpec"
  | arrayRank rank =>
    "ARRAY - rank " ++ toString rank ++ " outside 1..=" ++ toString maxRank
  | sizesExceedRank count rank =>
    "ARRAY - " ++ toString count ++ " sizes exceed rank " ++ toString rank
  | lowerBoundsExceedRank count rank =>
    "ARRAY - " ++ toString count ++ " lower bounds exceed rank " ++ toString rank
  | shapeExceedsRank rank => "ARRAY - more sizes or lower bounds than rank " ++ toString rank
  | instantiationMarker => "GENERICINST - Next byte is not CLASS or VALUETYPE"
  | noTypeArguments => "GENERICINST - instantiation without type arguments"
  | unknownConvention header =>
    "Invalid method calling convention - " ++ Hexadecimal.byteText header
  | reservedBit => "Reserved calling convention bit set"
  | explicitWithoutThis => "EXPLICITTHIS requires HASTHIS"
  | arityWithoutGeneric arity =>
    "Generic parameter count " ++ toString arity ++ " without the GENERIC flag"
  | unexpectedSentinel convention => "Unexpected SENTINEL in " ++ convention.keyword ++ " signature"
  | sentinelPlace index convention parameters =>
    "Sentinel at " ++ toString index ++ " is not valid for " ++ convention.keyword ++ " with "
      ++ toString parameters ++ " parameter(s)"
  | wrongLead kind =>
    kind.production ++ " - invalid start, expected "
      ++ " or ".intercalate (kind.leads.map Hexadecimal.byteText)
  | noLocals => "LocalVarSig - at least one local is required"
  | noMethodArguments => "MethodSpecSig - instantiation without type arguments"
  | tooMany listed count => "Too many " ++ listed.words ++ " - " ++ toString count
  | trailing count => toString count ++ " trailing byte(s) after signature"

/-! ## Errors -/

/-- Why a blob could not be read or written, and where. -/
inductive Error where
  /-- The blob ends inside a value: `needed` bytes had to follow `offset`, and `remaining` do. -/
  | truncated (offset needed remaining : Nat)
  /-- The byte `observed` at `offset` fits no rule. -/
  | invalidEncoding (offset : Nat) (observed : UInt8) (defect : Defect)
  /-- The byte `observed` at `offset` begins no type. -/
  | unknownElementType (offset : Nat) (observed : UInt8)
  /-- The type at `offset` is nested more than `limit` levels deep. -/
  | maxDepthExceeded (limit offset : Nat)
deriving DecidableEq, Repr

/-- The classes of errors. -/
inductive ErrorKind where
  | truncated
  | invalidEncoding
  | unknownElementType
  | maxDepthExceeded
deriving DecidableEq, Repr

/-- All classes of errors. -/
def ErrorKind.all : List ErrorKind :=
  [truncated, invalidEncoding, unknownElementType, maxDepthExceeded]

/-- The name of the class. -/
def ErrorKind.name : ErrorKind → String
  | truncated => "Truncated"
  | invalidEncoding => "InvalidEncoding"
  | unknownElementType => "UnknownElementType"
  | maxDepthExceeded => "MaxDepthExceeded"

namespace Error

/-- The class of the error. -/
def kind : Error → ErrorKind
  | truncated .. => .truncated
  | invalidEncoding .. => .invalidEncoding
  | unknownElementType .. => .unknownElementType
  | maxDepthExceeded .. => .maxDepthExceeded

/-- The place at which the blob is wrong. -/
def offset : Error → Nat
  | truncated offset _ _ => offset
  | invalidEncoding offset _ _ => offset
  | unknownElementType offset _ => offset
  | maxDepthExceeded _ offset => offset

/-- The byte that is to blame, if the error is about a byte. -/
def observed? : Error → Option UInt8
  | truncated .. => none
  | invalidEncoding _ observed _ => some observed
  | unknownElementType _ observed => some observed
  | maxDepthExceeded .. => none

/-- An error that blames a byte is about an encoding. -/
theorem kind_ne_of_observed? {error : Error} (h : error.observed?.isSome) :
    error.kind ≠ .truncated ∧ error.kind ≠ .maxDepthExceeded := by
  cases error <;> simp_all [observed?, kind]

/-- The error in words. -/
def message : Error → String
  | truncated offset needed remaining =>
    "Out of bound read would have occurred - offset " ++ toString offset ++ ", needed "
      ++ toString needed ++ ", remaining " ++ toString remaining
  | invalidEncoding offset observed defect =>
    "Invalid encoding at offset " ++ toString offset ++ " (byte " ++ Hexadecimal.byteText observed
      ++ "): " ++ defect.message
  | unknownElementType offset observed =>
    "Unsupported ELEMENT_TYPE " ++ Hexadecimal.byteText observed ++ " at offset "
      ++ toString offset
  | maxDepthExceeded limit offset =>
    "Reached the maximum nesting depth allowed - " ++ toString limit ++ " (offset "
      ++ toString offset ++ ")"

end Error

end SignatureBlob
