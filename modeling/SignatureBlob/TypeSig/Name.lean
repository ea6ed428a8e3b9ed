import SignatureBlob.TypeSig

/-!
# Names of types

The name of a type in the manner of reflection. A token is looked up, and shown as a number if it
has no name. Modifiers and pinning are no part of a name.

Main statement: `TypeSig.names_eq_map`.
-/

namespace SignatureBlob

/-! ## Names of tokens -/

/-- The names that tokens have. -/
abbrev TokenNames := Token → Option String

namespace TokenNames

/-- No token has a name. -/
def unresolved : TokenNames := fun _ => none

/-- The names in a list; of two names for one token the later counts. -/
def ofList (names : List (Token × String)) : TokenNames := fun token =>
  names.reverse.lookup token

/-- The name of a token, or its number. -/
def nameOf (names : TokenNames) (token : Token) : String :=
  (names token).getD token.text

end TokenNames

/-! ## Names of types -/

/-- The brackets behind the name of an array's elements. One dimension is marked by a star, since
empty brackets belong to vectors. -/
def ArrayShape.name (shape : ArrayShape) : String :=
  if shape.rank = 1 then "[*]"
  else "[" ++ String.ofList (List.replicate (shape.rank - 1) ',') ++ "]"

namespace TypeSig

mutual

/-- The name of a type. -/
def name (resolve : TokenNames) : TypeSig → String
  | primitive kind => kind.systemName
  | classType token => resolve.nameOf token
  | valueType token => resolve.nameOf token
  | vector element => name resolve element ++ "[]"
  | array element shape => name resolve element ++ shape.name
  | pointer target => name resolve target ++ "*"
  | byRef target => name resolve target ++ "&"
  | genericParam index ofMethod => (if ofMethod then "!!" else "!") ++ toString index
  | instantiation base _ args =>
    resolve.nameOf base ++ "[" ++ ",".intercalate (names resolve args) ++ "]"
  | functionPointer _ result params =>
    name resolve result ++ " *(" ++ ",".intercalate (names resolve params) ++ ")"
  | modified _ _ inner => name resolve inner
  | pinned inner => name resolve inner

/-- The name of each of some types. -/
def names (resolve : TokenNames) : List TypeSig → List String
  | [] => []
  | type :: types => name resolve type :: names resolve types

end

/-- Types are named each by itself. -/
theorem names_eq_map (resolve : TokenNames) (types : List TypeSig) :
    names resolve types = types.map (name resolve) := by
  induction types with
  | nil => rfl
  | cons type types ih => simp [names, ih]

end TypeSig

/-- The names of a method's parameters, which tell it from others of its name. -/
def MethodSig.parameterNames (resolve : TokenNames) (method : MethodSig) : String :=
  ",".intercalate (TypeSig.names resolve method.params)

end SignatureBlob
