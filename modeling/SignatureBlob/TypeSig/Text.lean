import SignatureBlob.TypeSig

/-!
# Types as text

The text of a type in the manner of assembler source. Tokens are shown as numbers, since their
names stand in tables that a signature does not hold.

Main statement: `TypeSig.texts_eq_map`.
-/

namespace SignatureBlob

/-- Texts with a comma and a space between them. -/
def commaList (texts : List String) : String := ", ".intercalate texts

/-! ## Array shapes -/

namespace ArrayShape

/-- One dimension: its bounds, as far as they are given. -/
def dimensionText : (lower : Option Int) → (size : Option Nat) → String
  | some lower, some size => toString lower ++ "..." ++ toString (lower + size - 1)
  | some lower, none => toString lower ++ "..."
  | none, some size => toString size
  | none, none => ""

/-- All dimensions in brackets. -/
def text (shape : ArrayShape) : String :=
  let dimensions := (List.range shape.rank).map fun dimension =>
    dimensionText shape.lowerBounds[dimension]? shape.sizes[dimension]?
  "[" ++ ",".intercalate dimensions ++ "]"

end ArrayShape

/-! ## Methods -/

namespace MethodHeader

/-- The keywords in front of the result. -/
def keywords (header : MethodHeader) : String :=
  (if header.hasThis then "instance " else "")
    ++ (if header.explicitThis then "explicit " else "")
    ++ (if header.convention = .managed then "" else header.convention.keyword ++ " ")

/-- The parameters, with dots in the place of the sentinel. -/
def paramList (header : MethodHeader) (params : List String) : String :=
  match header.sentinel with
  | none => commaList params
  | some _ => commaList (header.fixedPart params ++ ["..."] ++ header.varArgPart params)

/-- A method from the texts of its types; `mark` stands where the name of a method would. -/
def text (header : MethodHeader) (mark : String) (result : String) (params : List String) :
    String :=
  header.keywords ++ result
    ++ (if header.generic then " <[" ++ toString header.arity ++ "]>" else "")
    ++ " " ++ mark ++ "(" ++ header.paramList params ++ ")"

end MethodHeader

/-! ## Types -/

namespace TypeSig

mutual

/-- The type as text. -/
def text : TypeSig → String
  | primitive kind => kind.keyword
  | classType token => "class " ++ token.text
  | valueType token => "valuetype " ++ token.text
  | vector element => text element ++ "[]"
  | array element shape => text element ++ shape.text
  | pointer target => text target ++ "*"
  | byRef target => text target ++ "&"
  | genericParam index ofMethod => (if ofMethod then "!!" else "!") ++ toString index
  | instantiation base isValueType args =>
    (if isValueType then "valuetype " else "class ") ++ base.text ++ "<"
      ++ commaList (texts args) ++ ">"
  | functionPointer header result params =>
    "method " ++ header.text "*" (text result) (texts params)
  | modified modifier required inner =>
    text inner ++ (if required then " modreq(" else " modopt(") ++ modifier.text ++ ")"
  | pinned inner => text inner ++ " pinned"

/-- Each of some types as text. -/
def texts : List TypeSig → List String
  | [] => []
  | type :: types => text type :: texts types

end

/-- Types are shown each by itself. -/
theorem texts_eq_map (types : List TypeSig) : texts types = types.map text := by
  induction types with
  | nil => rfl
  | cons type types ih => simp [texts, ih]

end TypeSig

end SignatureBlob
