import SignatureBlob.CompressedInt

/-!
# Coded tokens

A signature writes a token into one of the three tables of types as one compressed integer: the
table as a tag in the lowest two bits, the row above it. The tag 3 belongs to no table.

Main statements: `CodedToken.ofTag?_tag` and `CodedToken.tag_lt` (tags and tables correspond).
-/

namespace SignatureBlob.CodedToken

/-- The tag of a table. -/
def tag : TypeTable → Nat
  | .typeDef => 0
  | .typeRef => 1
  | .typeSpec => 2

/-- The table of a tag. -/
def ofTag? : Nat → Option TypeTable
  | 0 => some .typeDef
  | 1 => some .typeRef
  | 2 => some .typeSpec
  | _ => none

/-- A table is told by its tag. -/
theorem ofTag?_tag (table : TypeTable) : ofTag? (tag table) = some table := by
  cases table <;> rfl

/-- The tag 3 belongs to no table. -/
theorem tag_lt (table : TypeTable) : tag table < 3 := by
  cases table <;> decide

/-- The token that a coded number stands for, or why it stands for none. -/
def ofCode (code : Nat) : Except Defect Token :=
  match ofTag? (code % 4) with
  | none => .error (.codedTag code)
  | some table =>
    if code / 4 < Token.rowLimit then .ok (.ofParts table (code / 4))
    else .error (.codedRow (code / 4))

/-- The coded number of a row of a table. -/
def code (table : TypeTable) (row : Nat) : Nat := row * 4 + tag table

open ByteReader in
/-- A coded token. The integer is taken back if it stands for no token. -/
def read {m : Type → Type} [ByteReader m] : m Token := do
  let offset ← position
  let lead ← peek
  transaction do
    let code ← CompressedInt.readUnsigned
    match ofCode code with
    | .ok token => return token
    | .error defect => refuse offset lead defect

/-- A coded token. -/
abbrev decode : Decoder Token := read

/-- A token in its coded form; the token must point into a table of types. -/
def put {ω : Type} [Writer ω] (token : Token) : ω :=
  match token.typeTable? with
  | some table => CompressedInt.putUnsigned (code table token.row)
  | none => Writer.fail token.table (.tokenTable token)

/-- A token as it is written. -/
abbrev emit (token : Token) : Emission := put token

end SignatureBlob.CodedToken
