import SignatureBlob.BigEndian
import SignatureBlob.Decoder
import SignatureBlob.Emission

/-!
# Compressed integers

A compressed integer takes one, two or four bytes. The top bits of the first byte tell the form,
and the other bits, most significant byte first, are the payload. An unsigned integer is its
payload. A signed integer has its sign in the lowest bit of the payload: the payload is the integer
rotated left by one within the form. Reading admits every form that is wide enough, and writing
takes the shortest. One first byte that belongs to no form stands for null where null is allowed.

Main statements: `Form.ofLead?_mark` (a form is told by its first byte) and
`Form.signed_payload` (a signed integer comes back from its payload).
-/

namespace SignatureBlob.CompressedInt

/-! ## Forms -/

/-- The forms of a compressed integer. -/
inductive Form where
  | one
  | two
  | four
deriving DecidableEq, Repr

namespace Form

/-- The number of bytes of the form. -/
def size : Form → Nat
  | one => 1
  | two => 2
  | four => 4

/-- The number of payloads of the form. -/
def span : Form → Nat
  | one => 0x80
  | two => 0x4000
  | four => 0x20000000

/-- What the bits that tell the form add to the payload. -/
def mark : Form → Nat
  | one => 0
  | two => 0x8000
  | four => 0xC0000000

/-- The form that a first byte tells. -/
def ofLead? (byte : UInt8) : Option Form :=
  if byte.toNat < 0x80 then some one
  else if byte.toNat < 0xC0 then some two
  else if byte.toNat < 0xE0 then some four
  else none

/-- The shortest form for an unsigned integer. -/
def forUnsigned? (value : Nat) : Option Form :=
  if value < one.span then some one
  else if value < two.span then some two
  else if value < four.span then some four
  else none

/-- Whether a signed integer is within reach of the form. -/
def Reaches (form : Form) (value : Int) : Prop :=
  -(form.span / 2 : Int) ≤ value ∧ value < form.span / 2

instance (form : Form) (value : Int) : Decidable (form.Reaches value) :=
  inferInstanceAs (Decidable (_ ∧ _))

/-- The shortest form for a signed integer. -/
def forSigned? (value : Int) : Option Form :=
  if one.Reaches value then some one
  else if two.Reaches value then some two
  else if four.Reaches value then some four
  else none

/-- The signed integer that a payload of the form stands for. -/
def signed (form : Form) (payload : Nat) : Int :=
  if payload % 2 = 0 then (payload / 2 : Nat) else (payload / 2 : Nat) - (form.span / 2 : Nat)

/-- The payload of a signed integer in the form. -/
def payload (form : Form) (value : Int) : Nat :=
  (2 * value % form.span).toNat + if value < 0 then 1 else 0

/-- The bytes of a payload in the form. -/
def encode (form : Form) (payload : Nat) : List UInt8 :=
  BigEndian.encode form.size (form.mark + payload)

/-- A signed integer comes back from its payload in every form that reaches it. -/
theorem signed_payload {form : Form} {value : Int} (h : form.Reaches value) :
    form.signed (form.payload value) = value := by
  cases form <;> simp only [Reaches, span] at h <;> simp only [signed, payload, span] <;>
    split <;> split at * <;> omega

/-- The payload of a signed integer that the form reaches fits into the form. -/
theorem payload_lt {form : Form} {value : Int} (h : form.Reaches value) :
    form.payload value < form.span := by
  cases form <;> simp only [Reaches, span] at h <;> simp only [payload, span] <;>
    split <;> omega

end Form

/-- The byte that stands for null. -/
def nullMarker : UInt8 := 0xFF

/-- The largest unsigned integer. -/
def maxUnsigned : Nat := Form.four.span - 1

/-- The smallest signed integer. -/
def minSigned : Int := -(Form.four.span / 2 : Nat)

/-- The largest signed integer. -/
def maxSigned : Int := (Form.four.span / 2 : Nat) - 1

/-- The number of bytes that an unsigned integer takes in its shortest form. -/
def unsignedSize? (value : Nat) : Option Nat :=
  (Form.forUnsigned? value).map Form.size

/-! ## Reading -/

section

open ByteReader

variable {m : Type → Type} [ByteReader m]

/-- A payload, where the next byte is not the null marker. -/
def readPayload : m Nat := do
  let offset ← position
  let lead ← peek
  match Form.ofLead? lead with
  | none => refuse offset lead .integerLead
  | some form =>
    let bytes ← bytes form.size
    return BigEndian.value bytes % form.span

/-- An unsigned integer; null is refused. -/
def readUnsigned : m Nat := do
  let offset ← position
  let lead ← peek
  if lead = nullMarker then refuse offset nullMarker .nullMarker else readPayload

/-- An unsigned integer, or null. -/
def readUnsigned? : m (Option Nat) := do
  let lead ← peek
  if lead = nullMarker then
    skip
    return none
  else return some (← readPayload)

/-- A signed integer. Its form is told by the byte that was looked at. -/
def readSigned : m Int := do
  let lead ← peek
  let payload ← readUnsigned
  return ((Form.ofLead? lead).getD .four).signed payload

end

/-- An unsigned integer. -/
abbrev decodeUnsigned : Decoder Nat := readUnsigned

/-- An unsigned integer, or null. -/
abbrev decodeUnsigned? : Decoder (Option Nat) := readUnsigned?

/-- A signed integer. -/
abbrev decodeSigned : Decoder Int := readSigned

/-! ## Writing -/

/-- The numbers of members that a count of 32 bits can say. -/
def countLimit : Nat := 0x100000000

section

variable {ω : Type} [Writer ω]

/-- An unsigned integer in its shortest form. -/
def putUnsigned (value : Nat) : ω :=
  match Form.forUnsigned? value with
  | some form => Writer.ofBytes (form.encode value)
  | none => Writer.fail (UInt8.ofNat (value / 0x1000000)) (.unsignedRange value)

/-- A signed integer in its shortest form. -/
def putSigned (value : Int) : ω :=
  match Form.forSigned? value with
  | some form => Writer.ofBytes (form.encode (form.payload value))
  | none => Writer.fail (UInt8.ofInt (value / 0x1000000)) (.signedRange value)

/-- The number of members of a list that is written for the byte `observed`. -/
def putCount (observed : UInt8) (listed : Listed) (count : Nat) : ω :=
  if count < countLimit then putUnsigned count
  else Writer.fail observed (.tooMany listed count)

end

/-- An unsigned integer as it is written. -/
abbrev emitUnsigned (value : Nat) : Emission := putUnsigned value

/-- A signed integer as it is written. -/
abbrev emitSigned (value : Int) : Emission := putSigned value

/-- The number of members of a list as it is written. -/
abbrev emitCount (observed : UInt8) (listed : Listed) (count : Nat) : Emission :=
  putCount observed listed count

end SignatureBlob.CompressedInt
