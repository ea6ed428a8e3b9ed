/-!
# Hexadecimal text

Bytes, tokens and rows are shown in base sixteen, most often with a fixed number of digits.
This module holds the digits of a number, the value of a digit, and the bytes that a run of
digit pairs stands for.

Main statements: `length_digits` (a fixed width is kept), `value?_digit` (a digit reads back).
-/

namespace SignatureBlob.Hexadecimal

/-! ## Digits of a number -/

/-- The last `width` base-sixteen digits of a number, the most significant first, in lower case. -/
def digits : Nat → Nat → List Char
  | 0, _ => []
  | width + 1, number => digits width (number / 16) ++ [Nat.digitChar (number % 16)]

/-- A number takes as many digits as it is asked to. -/
theorem length_digits (width number : Nat) : (digits width number).length = width := by
  induction width generalizing number with
  | zero => rfl
  | succ width ih => simp [digits, ih]

/-- The last `width` digits of a number as text, letters in lower case. -/
def lower (width number : Nat) : String :=
  String.ofList (digits width number)

/-- The last `width` digits of a number as text, letters in upper case. -/
def upper (width number : Nat) : String :=
  String.ofList ((digits width number).map Char.toUpper)

/-- All digits of a number, with no leading zero, letters in upper case. -/
def shortestUpper (number : Nat) : String :=
  String.ofList ((Nat.toDigits 16 number).map Char.toUpper)

/-- The two digits of a byte, marked as hexadecimal: `0x0F`. -/
def byteText (byte : UInt8) : String :=
  "0x" ++ upper 2 byte.toNat

/-- The digits of a run of bytes, two for each and nothing between them. -/
def ofBytes (bytes : List UInt8) : String :=
  String.join (bytes.map fun byte => lower 2 byte.toNat)

/-! ## Value of a digit -/

/-- The value of a hexadecimal digit in either case; other characters have none. -/
def value? (c : Char) : Option Nat :=
  if '0' ≤ c ∧ c ≤ '9' then some (c.toNat - '0'.toNat)
  else if 'a' ≤ c ∧ c ≤ 'f' then some (c.toNat - 'a'.toNat + 10)
  else if 'A' ≤ c ∧ c ≤ 'F' then some (c.toNat - 'A'.toNat + 10)
  else none

/-- Each of the sixteen digits reads back, in lower and in upper case. -/
theorem value?_digit : ∀ n < 16,
    value? (Nat.digitChar n) = some n ∧ value? (Nat.digitChar n).toUpper = some n := by
  decide

/-- The byte that two digits stand for. -/
def byte? (high low : Char) : Option UInt8 := do
  let high ← value? high
  let low ← value? low
  return UInt8.ofNat (high * 16 + low)

/-- The bytes that a run of digit pairs stands for; `none` if a digit is missing or is no digit. -/
def toBytes? : List Char → Option (List UInt8)
  | [] => some []
  | [_] => none
  | high :: low :: rest => do
    let byte ← byte? high low
    let bytes ← toBytes? rest
    return byte :: bytes

end SignatureBlob.Hexadecimal
