/-!
# JSON values

JSON values as far as reports need them. How they are written as text is left to `Services.json`.
-/

namespace SignatureBlob

/-- A JSON value; an object keeps its members in order. -/
inductive Json where
  | null
  | number (value : Nat)
  | string (value : String)
  | array (items : List Json)
  | object (members : List (String × Json))

namespace Json

/-- A value that may be missing. -/
def ofOption {α : Type} (encode : α → Json) : Option α → Json
  | none => null
  | some value => encode value

end Json

end SignatureBlob
