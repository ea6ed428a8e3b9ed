import SignatureBlob.SignatureKind
import SignatureBlob.TypeSig

/-!
# Signatures

The value of a signature blob of any kind, its types, and the part that each type plays in it.

Main statement: `Signature.types_method` (a method's types are its result and all its parameters).
-/

namespace SignatureBlob

/-- The value of a signature blob. -/
inductive Signature where
  | method (method : MethodSig)
  | field (type : TypeSig)
  | property (hasThis : Bool) (type : TypeSig) (params : List TypeSig)
  | locals (types : List TypeSig)
  | typeSpec (type : TypeSig)
  | methodSpec (args : List TypeSig)
deriving DecidableEq, Repr

/-! ## Roles -/

/-- The part that a type plays in a signature. -/
inductive Role where
  /-- The result of a method. -/
  | result
  /-- A parameter, counted from zero. -/
  | param (index : Nat)
  /-- A parameter behind the sentinel, counted from zero there. -/
  | varArg (index : Nat)
  /-- The type of a field. -/
  | field
  /-- The type of a property. -/
  | property
  /-- A local variable, counted from zero. -/
  | localVar (index : Nat)
  /-- The type of a type specification. -/
  | spec
  /-- A type argument, counted from zero. -/
  | arg (index : Nat)
deriving DecidableEq, Repr

/-- The role in words. -/
def Role.text : Role → String
  | result => "return"
  | param index => "param " ++ toString index
  | varArg index => "vararg " ++ toString index
  | field => "field"
  | property => "property"
  | localVar index => "local " ++ toString index
  | spec => "type"
  | arg index => "arg " ++ toString index

/-- Types with a role that is counted along them. -/
def Role.number (role : Nat → Role) (types : List TypeSig) : List (Role × TypeSig) :=
  types.zipIdx.map fun (type, index) => (role index, type)

/-- Types keep their order when they are given a role. -/
theorem Role.map_snd_number (role : Nat → Role) (types : List TypeSig) :
    (number role types).map Prod.snd = types := by
  simp [number, Function.comp_def]

/-! ## Views of a signature -/

namespace Signature

/-- The kind of the signature. -/
def kind : Signature → SignatureKind
  | method _ => .method
  | field _ => .field
  | property _ _ _ => .property
  | locals _ => .locals
  | typeSpec _ => .typeSpec
  | methodSpec _ => .methodSpec

/-- The types of the signature, each with its role, in the order in which a blob holds them. -/
def entries : Signature → List (Role × TypeSig)
  | method m =>
    (.result, m.result) :: (Role.number .param (m.header.fixedPart m.params)
      ++ Role.number .varArg (m.header.varArgPart m.params))
  | field type => [(.field, type)]
  | property _ type params => (.property, type) :: Role.number .param params
  | locals types => Role.number .localVar types
  | typeSpec type => [(.spec, type)]
  | methodSpec args => Role.number .arg args

/-- The types of the signature in the order in which a blob holds them. -/
def types (signature : Signature) : List TypeSig := signature.entries.map Prod.snd

/-- The types of a method are its result and all its parameters, those behind the sentinel too. -/
theorem types_method (m : MethodSig) : (method m).types = m.result :: m.params := by
  simp [types, entries, Role.map_snd_number, MethodHeader.fixedPart_append_varArgPart]

/-- The largest depth of the types, zero if there are none. -/
def depth (signature : Signature) : Nat := TypeSig.deepest (signature.types.map TypeSig.depth)

end Signature

end SignatureBlob
