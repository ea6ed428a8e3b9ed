/-!
# Calling conventions

The first byte of a method signature holds a calling convention in its low four bits, three flags
above them and one bit that must stay clear.

Main statements: `Convention.ofByte?_byte` and `Convention.byte_of_ofByte?`.
-/

namespace SignatureBlob

/-! ## Conventions -/

/-- How a method is called. -/
inductive Convention where
  /-- The managed convention that needs no keyword. -/
  | managed
  | cdecl
  | stdCall
  | thisCall
  | fastCall
  /-- The managed convention with a variable argument list. -/
  | varArg
  /-- An unmanaged convention that modifiers on the return type select. -/
  | unmanaged
deriving DecidableEq, Repr

namespace Convention

/-- All conventions, in ascending order of their numbers. -/
def all : List Convention :=
  [managed, cdecl, stdCall, thisCall, fastCall, varArg, unmanaged]

/-- The number of the convention. -/
def byte : Convention → UInt8
  | managed => 0x00
  | cdecl => 0x01
  | stdCall => 0x02
  | thisCall => 0x03
  | fastCall => 0x04
  | varArg => 0x05
  | unmanaged => 0x09

/-- The convention with a given number. -/
def ofByte? (byte : UInt8) : Option Convention :=
  all.find? fun convention => convention.byte == byte

/-- A convention is told by its bits. -/
theorem ofByte?_byte (convention : Convention) : ofByte? convention.byte = some convention := by
  cases convention <;> rfl

/-- No other bits tell the convention. -/
theorem byte_of_ofByte? {byte : UInt8} {convention : Convention}
    (h : ofByte? byte = some convention) : convention.byte = byte := by
  simpa using List.find?_some h

/-- The convention in words. -/
def keyword : Convention → String
  | managed => "default"
  | cdecl => "unmanaged cdecl"
  | stdCall => "unmanaged stdcall"
  | thisCall => "unmanaged thiscall"
  | fastCall => "unmanaged fastcall"
  | varArg => "vararg"
  | unmanaged => "unmanaged"

/-- Whether a call may pass more arguments than the method declares. -/
def admitsVarArgs : Convention → Bool
  | varArg | cdecl => true
  | _ => false

end Convention

/-! ## Bits of a header byte -/

namespace HeaderBit

/-- The four bits that hold a convention. -/
def convention : UInt8 := 0x0F

/-- The method has generic parameters, and their number follows. -/
def generic : UInt8 := 0x10

/-- The method is called on an instance. -/
def hasThis : UInt8 := 0x20

/-- The instance is listed as the first parameter. -/
def explicitThis : UInt8 := 0x40

/-- The bit without a meaning. -/
def reserved : UInt8 := 0x80

/-- The three flags together. -/
def flags : UInt8 := generic ||| hasThis ||| explicitThis

/-- Whether a bit is set in a byte. -/
def isSet (bit byte : UInt8) : Bool := byte &&& bit != 0

/-- The bit if a condition holds, and no bit otherwise. -/
def when (bit : UInt8) (condition : Bool) : UInt8 := if condition then bit else 0

end HeaderBit

end SignatureBlob
