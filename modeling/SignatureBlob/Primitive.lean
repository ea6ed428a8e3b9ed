/-!
# Primitive types

The types that a signature writes as a single byte, with the keyword each is shown by and the
full name of the class behind it.

Main statements: `Primitive.mem_all` (no primitive is left out) and `Primitive.byte_of_ofByte?` (a
primitive that is found has the byte that it was found by).
-/

namespace SignatureBlob

/-- A type that one byte describes completely. -/
inductive Primitive where
  | void
  | boolean
  | char
  | int8
  | uint8
  | int16
  | uint16
  | int32
  | uint32
  | int64
  | uint64
  | float32
  | float64
  | string
  /-- A reference that carries its own type. -/
  | typedReference
  /-- A signed integer as wide as an address. -/
  | nativeInt
  /-- An unsigned integer as wide as an address. -/
  | nativeUInt
  | object
deriving DecidableEq, Repr

namespace Primitive

/-- All primitives, in ascending order of their bytes. -/
def all : List Primitive :=
  [void, boolean, char, int8, uint8, int16, uint16, int32, uint32, int64, uint64, float32, float64,
    string, typedReference, nativeInt, nativeUInt, object]

/-- No primitive type is missing from the list of all. -/
theorem mem_all (kind : Primitive) : kind ∈ all := by
  cases kind <;> decide

/-- The byte that stands for the primitive in a blob. -/
def byte : Primitive → UInt8
  | void => 0x01
  | boolean => 0x02
  | char => 0x03
  | int8 => 0x04
  | uint8 => 0x05
  | int16 => 0x06
  | uint16 => 0x07
  | int32 => 0x08
  | uint32 => 0x09
  | int64 => 0x0A
  | uint64 => 0x0B
  | float32 => 0x0C
  | float64 => 0x0D
  | string => 0x0E
  | typedReference => 0x16
  | nativeInt => 0x18
  | nativeUInt => 0x19
  | object => 0x1C

/-- The primitive that a byte stands for. -/
def ofByte? (byte : UInt8) : Option Primitive :=
  all.find? fun kind => kind.byte == byte

/-- No other byte tells the primitive type. -/
theorem byte_of_ofByte? {byte : UInt8} {kind : Primitive} (h : ofByte? byte = some kind) :
    kind.byte = byte := by
  simpa using List.find?_some h

/-- The keyword that the primitive is shown by. -/
def keyword : Primitive → String
  | void => "void"
  | boolean => "bool"
  | char => "char"
  | int8 => "int8"
  | uint8 => "uint8"
  | int16 => "int16"
  | uint16 => "uint16"
  | int32 => "int32"
  | uint32 => "uint32"
  | int64 => "int64"
  | uint64 => "uint64"
  | float32 => "float32"
  | float64 => "float64"
  | string => "string"
  | typedReference => "typedref"
  | nativeInt => "native int"
  | nativeUInt => "native uint"
  | object => "object"

/-- The full name of the class behind the primitive. -/
def systemName : Primitive → String
  | void => "System.Void"
  | boolean => "System.Boolean"
  | char => "System.Char"
  | int8 => "System.SByte"
  | uint8 => "System.Byte"
  | int16 => "System.Int16"
  | uint16 => "System.UInt16"
  | int32 => "System.Int32"
  | uint32 => "System.UInt32"
  | int64 => "System.Int64"
  | uint64 => "System.UInt64"
  | float32 => "System.Single"
  | float64 => "System.Double"
  | string => "System.String"
  | typedReference => "System.TypedReference"
  | nativeInt => "System.IntPtr"
  | nativeUInt => "System.UIntPtr"
  | object => "System.Object"

end Primitive

end SignatureBlob
