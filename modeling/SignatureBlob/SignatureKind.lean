/-!
# Kinds of signature

The six kinds of signature blob. Four of them begin with a byte that tells the kind; a method
begins with its calling convention and a type specification with the type itself.
-/

namespace SignatureBlob

/-- The kinds of signature blob. -/
inductive SignatureKind where
  /-- A method, its calling convention first. -/
  | method
  /-- The type of a field. -/
  | field
  /-- A property and its index parameters. -/
  | property
  /-- The local variables of a method body. -/
  | locals
  /-- A constructed type. -/
  | typeSpec
  /-- The type arguments of a generic method. -/
  | methodSpec
deriving DecidableEq, Repr

namespace SignatureKind

/-- All kinds. -/
def all : List SignatureKind := [method, field, property, locals, typeSpec, methodSpec]

/-- The word that selects the kind. -/
def name : SignatureKind → String
  | method => "method"
  | field => "field"
  | property => "property"
  | locals => "locals"
  | typeSpec => "typespec"
  | methodSpec => "methodspec"

/-- The kind that a word selects; case matters. -/
def ofName? (name : String) : Option SignatureKind :=
  all.find? fun kind => kind.name == name

/-- The name of the grammar rule for the kind. -/
def production : SignatureKind → String
  | method => "MethodSig"
  | field => "FieldSig"
  | property => "PropertySig"
  | locals => "LocalVarSig"
  | typeSpec => "TypeSpec"
  | methodSpec => "MethodSpecSig"

/-- The bytes that a blob of the kind may begin with, for the kinds that have a lead byte of their
own. -/
def leads : SignatureKind → List UInt8
  | method => []
  | field => [0x06]
  | property => [0x08, 0x28]
  | locals => [0x07]
  | typeSpec => []
  | methodSpec => [0x0A]

end SignatureKind

end SignatureBlob
