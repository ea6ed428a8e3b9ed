import SignatureBlob.Hexadecimal
import SignatureBlob.Json

/-!
# JSON text

A JSON value as text over several lines: members one level deeper by two spaces, and nothing inside
empty brackets.
-/

namespace SignatureBlob.Json

/-- A character inside quotes. -/
def escape (c : Char) : String :=
  if c = '"' then "\\\""
  else if c = '\\' then "\\\\"
  else if c = '\x08' then "\\b"
  else if c = '\x0c' then "\\f"
  else if c = '\n' then "\\n"
  else if c = '\r' then "\\r"
  else if c = '\t' then "\\t"
  else if c.toNat < 0x20 then "\\u" ++ Hexadecimal.lower 4 c.toNat
  else String.singleton c

/-- A text in quotes. -/
def quote (text : String) : String :=
  "\"" ++ String.join (text.toList.map escape) ++ "\""

/-- Parts in brackets, each on a line of its own at a depth. -/
def bracket (opening closing : String) (depth : Nat) (parts : List String) : String :=
  if parts.isEmpty then opening ++ closing
  else
    let indent (levels : Nat) : String := "\n" ++ String.ofList (List.replicate (2 * levels) ' ')
    opening ++ indent (depth + 1) ++ ("," ++ indent (depth + 1)).intercalate parts ++ indent depth
      ++ closing

mutual

/-- The value as text at a depth. -/
def textAt (depth : Nat) : Json → String
  | null => "null"
  | number value => toString value
  | string value => quote value
  | array items => bracket "[" "]" depth (itemTexts (depth + 1) items)
  | object members => bracket "\x7b" "\x7d" depth (memberTexts (depth + 1) members)

/-- Each of some values as text at a depth. -/
def itemTexts (depth : Nat) : List Json → List String
  | [] => []
  | item :: items => textAt depth item :: itemTexts depth items

/-- Each of some members as text at a depth. -/
def memberTexts (depth : Nat) : List (String × Json) → List String
  | [] => []
  | (name, value) :: members =>
    (quote name ++ ": " ++ textAt depth value) :: memberTexts depth members

end

/-- The value as text. -/
def text (json : Json) : String := json.textAt 0

end SignatureBlob.Json
