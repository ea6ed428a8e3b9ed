import SignatureBlob.Blank
import SignatureBlob.Hexadecimal

/-!
# Hexadecimal words

Bytes as people write them: pairs of digits in groups that blanks or commas separate, each group
perhaps marked by `0x`. A pair may also be a plus sign and one digit. What is wrong with a group is
told by the group as it was written.
-/

namespace SignatureBlob

/-! ## Errors -/

/-- Why a group of digits stands for no bytes. -/
inductive HexError where
  /-- The group has no digits or does not fall into pairs. -/
  | unpaired (group : String)
  /-- A pair of the group is not two digits. -/
  | invalidDigit (group : String)
  /-- A pair of bytes of the group ends inside a character, which begins at an index of the pair. -/
  | splitCharacter (group : String) (index : Nat)
deriving DecidableEq, Repr

/-- The error in words, from the general to the particular. -/
def HexError.messages : HexError → List String
  | unpaired group =>
    ["invalid hex byte group '" ++ group ++ "' (expected an even number of digits)"]
  | invalidDigit group => ["invalid hex: " ++ group, "invalid digit found in string"]
  | splitCharacter group index =>
    ["invalid hex: " ++ group, "incomplete utf-8 byte sequence from index " ++ toString index]

namespace HexWords

/-! ## Groups -/

/-- Whether a character stands between groups. -/
def separates (c : Char) : Bool := Blank.isBlank c || c == ','

/-- The groups of several texts. -/
def groups (texts : List String) : List (List Char) :=
  texts.flatMap fun text => Blank.fields separates text.toList

/-- A group without its mark. -/
def unmark : List Char → List Char
  | '0' :: 'x' :: digits => digits
  | '0' :: 'X' :: digits => digits
  | digits => digits

/-- The number of bytes that characters take in UTF-8. -/
def utf8Length (text : List Char) : Nat := text.foldr (fun c length => c.utf8Size + length) 0

/-- The byte that a pair stands for. -/
def pair? (high low : Char) : Option UInt8 :=
  if high = '+' then (Hexadecimal.value? low).map UInt8.ofNat else Hexadecimal.byte? high low

/-- The bytes of digits that fall into pairs of bytes, the group being named in errors. -/
def pairs (group : String) : List Char → Except HexError (List UInt8)
  | [] => .ok []
  | [c] =>
    if c.utf8Size ≤ 2 then .error (.invalidDigit group) else .error (.splitCharacter group 0)
  | high :: low :: rest =>
    if 2 < high.utf8Size then .error (.splitCharacter group 0)
    else if high.utf8Size = 2 then .error (.invalidDigit group)
    else if 1 < low.utf8Size then .error (.splitCharacter group 1)
    else
      match pair? high low with
      | none => .error (.invalidDigit group)
      | some byte => do
        let bytes ← pairs group rest
        return byte :: bytes

/-- The bytes of a group. -/
def readGroup (group : List Char) : Except HexError (List UInt8) :=
  let digits := unmark group
  if utf8Length digits = 0 ∨ utf8Length digits % 2 = 1 then
    .error (.unpaired (String.ofList group))
  else pairs (String.ofList group) digits

/-- The bytes of groups one behind the other; the first group that is wrong counts. -/
def readGroups : List (List Char) → Except HexError (List UInt8)
  | [] => .ok []
  | group :: groups => do
    let bytes ← readGroup group
    let others ← readGroups groups
    return bytes ++ others

/-- The bytes of several texts. -/
def read (texts : List String) : Except HexError (List UInt8) := readGroups (groups texts)

end HexWords

end SignatureBlob
