import SignatureBlob.Primitive

/-!
# Element types

Every type in a blob begins with an element-type byte, which tells what follows. A byte that no
element type has cannot begin a type; the sentinel mark, which separates parameters, is one such.

Main statements: `ElementType.ofByte?_byte` and `ElementType.byte_of_ofByte?`.
-/

namespace SignatureBlob

/-- What the first byte of a type announces. -/
inductive ElementType where
  /-- Nothing follows. -/
  | primitive (kind : Primitive)
  /-- A pointed-to type follows. -/
  | pointer
  /-- A referred-to type follows. -/
  | byRef
  /-- A token follows. -/
  | valueType
  /-- A token follows. -/
  | classType
  /-- The position of a generic parameter of the enclosing type follows. -/
  | typeParameter
  /-- An element type and a shape follow. -/
  | array
  /-- A generic type and its arguments follow. -/
  | instantiation
  /-- A method signature follows. -/
  | functionPointer
  /-- The type of the elements follows. -/
  | vector
  /-- The position of a generic parameter of the enclosing method follows. -/
  | methodParameter
  /-- A modifier that must be understood and the modified type follow. -/
  | requiredModifier
  /-- A modifier that may be ignored and the modified type follow. -/
  | optionalModifier
  /-- The type of a local that stays at its address follows. -/
  | pinned
deriving DecidableEq, Repr

namespace ElementType

/-- The element types that are not primitive, in ascending order of their bytes. -/
def composite : List ElementType :=
  [pointer, byRef, valueType, classType, typeParameter, array, instantiation, functionPointer,
    vector, methodParameter, requiredModifier, optionalModifier, pinned]

/-- The byte that announces the type. -/
def byte : ElementType → UInt8
  | primitive kind => kind.byte
  | pointer => 0x0F
  | byRef => 0x10
  | valueType => 0x11
  | classType => 0x12
  | typeParameter => 0x13
  | array => 0x14
  | instantiation => 0x15
  | functionPointer => 0x1B
  | vector => 0x1D
  | methodParameter => 0x1E
  | requiredModifier => 0x1F
  | optionalModifier => 0x20
  | pinned => 0x45

/-- What a byte announces at the start of a type. -/
def ofByte? (byte : UInt8) : Option ElementType :=
  match Primitive.ofByte? byte with
  | some kind => some (primitive kind)
  | none => composite.find? fun element => element.byte == byte

/-- An element type is told by its byte. -/
theorem ofByte?_byte (element : ElementType) : ofByte? element.byte = some element := by
  cases element with
  | primitive kind => cases kind <;> rfl
  | _ => rfl

/-- No other byte tells the element type. -/
theorem byte_of_ofByte? {byte : UInt8} {element : ElementType} (h : ofByte? byte = some element) :
    element.byte = byte := by
  unfold ofByte? at h
  split at h
  · next kind hkind =>
    cases h
    exact Primitive.byte_of_ofByte? hkind
  · simpa using List.find?_some h

/-- The mark in front of the first parameter that only a vararg call site supplies. -/
def sentinelByte : UInt8 := 0x41

/-- The mark of the sentinel is no element type. -/
theorem ofByte?_sentinelByte : ofByte? sentinelByte = none := rfl

end ElementType

end SignatureBlob
