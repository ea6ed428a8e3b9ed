import SignatureBlob.Hexadecimal

/-!
# Metadata tokens

A signature names a class or a value type by a token: the number of a metadata table in the high
byte and a row of that table in the low 24 bits. The tables that a type reference may point into
are `TypeTable`.

Main statements: `TypeTable.ofByte?_byte`, `Token.table_ofParts` and `Token.row_ofParts` (a token
built from its parts has them).
-/

namespace SignatureBlob

/-! ## Tables of types -/

/-- The metadata tables that hold types. -/
inductive TypeTable where
  /-- Types of other modules. -/
  | typeRef
  /-- Types defined in this module. -/
  | typeDef
  /-- Constructed types, each described by a signature of its own. -/
  | typeSpec
deriving DecidableEq, Repr

namespace TypeTable

/-- The number of the table. -/
def byte : TypeTable → UInt8
  | typeRef => 0x01
  | typeDef => 0x02
  | typeSpec => 0x1B

/-- All tables of types. -/
def all : List TypeTable := [typeRef, typeDef, typeSpec]

/-- The table with a given number, if it holds types. -/
def ofByte? (byte : UInt8) : Option TypeTable :=
  all.find? fun table => table.byte == byte

/-- A table is told by its byte. -/
theorem ofByte?_byte (table : TypeTable) : ofByte? table.byte = some table := by
  cases table <;> rfl

/-- No other byte tells the table. -/
theorem byte_of_ofByte? {byte : UInt8} {table : TypeTable} (h : ofByte? byte = some table) :
    table.byte = byte := by
  simpa using List.find?_some h

/-- The name of the table. -/
def name : TypeTable → String
  | typeRef => "TypeRef"
  | typeDef => "TypeDef"
  | typeSpec => "TypeSpec"

end TypeTable

/-! ## Tokens -/

/-- A reference to a row of a metadata table, as its 32-bit value. -/
structure Token where
  /-- The table number in the high byte, the row below it. -/
  value : UInt32
deriving DecidableEq, Repr

namespace Token

/-- The number of rows that a token can tell apart. -/
def rowLimit : Nat := 0x1000000

/-- The number of the table that the token points into. -/
def table (token : Token) : UInt8 := UInt8.ofNat (token.value.toNat / rowLimit)

/-- The row that the token points at. -/
def row (token : Token) : Nat := token.value.toNat % rowLimit

/-- A row has 24 bits. -/
theorem row_lt (token : Token) : token.row < rowLimit := Nat.mod_lt _ (by decide)

/-- The table of types that the token points into, if it does. -/
def typeTable? (token : Token) : Option TypeTable := TypeTable.ofByte? token.table

/-- The null token points nowhere. -/
def isNull (token : Token) : Bool := token.value == 0

/-- The token for a row of a table; of the row only the low 24 bits are kept. -/
def ofParts (table : TypeTable) (row : Nat) : Token :=
  ⟨UInt32.ofNat (table.byte.toNat * rowLimit + row % rowLimit)⟩

/-- The table stands above the row, of which 24 bits are kept. -/
theorem toNat_ofParts (table : TypeTable) (row : Nat) :
    (ofParts table row).value.toNat = table.byte.toNat * rowLimit + row % rowLimit := by
  have hbyte : table.byte.toNat ≤ 0x1B := by cases table <;> decide
  have hrow : row % rowLimit < rowLimit := Nat.mod_lt _ (by decide)
  have hlimit : rowLimit = 16777216 := rfl
  simp only [ofParts, UInt32.toNat_ofNat']
  apply Nat.mod_eq_of_lt
  rw [hlimit] at hrow ⊢
  omega

/-- A token that is built from a table and a row is in the table. -/
theorem table_ofParts (table : TypeTable) (row : Nat) : (ofParts table row).table = table.byte := by
  have hrow : row % rowLimit < rowLimit := Nat.mod_lt _ (by decide)
  have hpos : 0 < rowLimit := by decide
  rw [Token.table, toNat_ofParts, Nat.add_comm, Nat.add_mul_div_right _ _ hpos,
    Nat.div_eq_of_lt hrow, Nat.zero_add, UInt8.ofNat_toNat]

/-- A token that is built from a table and a row has the row, as far as 24 bits tell it. -/
theorem row_ofParts (table : TypeTable) (row : Nat) :
    (ofParts table row).row = row % rowLimit := by
  rw [Token.row, toNat_ofParts, Nat.add_comm, Nat.add_mul_mod_self_right, Nat.mod_mod]

/-- A token that is built from a table of types points into it. -/
theorem typeTable?_ofParts (table : TypeTable) (row : Nat) :
    (ofParts table row).typeTable? = some table := by
  rw [typeTable?, table_ofParts, TypeTable.ofByte?_byte]

/-- The token as text: its value in eight digits. -/
def text (token : Token) : String :=
  "0x" ++ Hexadecimal.lower 8 token.value.toNat

/-- The token with its parts spelled out, for diagnostics. -/
def description (token : Token) : String :=
  let table := match token.typeTable? with
    | some table => table.name
    | none => "table: 0x" ++ Hexadecimal.lower 2 token.table.toNat
  "Token(" ++ token.text ++ ", " ++ table ++ ", row: " ++ toString token.row ++ ")"

/-- Tokens in ascending order of their values. -/
def sorted (tokens : List Token) : List Token :=
  tokens.mergeSort fun a b => a.value ≤ b.value

end Token

end SignatureBlob
