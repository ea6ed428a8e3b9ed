import SignatureBlob.Decoder
import SignatureBlob.Json
import SignatureBlob.Listing
import SignatureBlob.Signature.Text
import SignatureBlob.TypeSig.Name

/-!
# The report on one blob

What decoding one blob gave, as a listing of its types or as JSON.
-/

namespace SignatureBlob

/-- An error as JSON. -/
def Error.toJson (error : Error) : Json :=
  .object [("kind", .string error.kind.name), ("offset", .number error.offset),
    ("message", .string error.message)]

namespace Report

/-- What decoding one blob gave. -/
structure Decoded where
  /-- The kind that the blob was decoded as. -/
  kind : SignatureKind
  /-- The number of bytes of the blob. -/
  size : Nat
  /-- The signature, or why there is none. -/
  result : Except Error Signature

/-- What is told of one type of a signature. -/
structure Entry where
  /-- The part that the type plays. -/
  role : String
  /-- The type as text. -/
  text : String
  /-- The name of the type, tokens having none. -/
  name : String
deriving DecidableEq, Repr

/-- What is told of each type of a signature. -/
def entries (signature : Signature) : List Entry :=
  signature.entries.map fun (role, type) => ⟨role.text, type.text, type.name .unresolved⟩

namespace Decoded

/-- The signature as text. -/
def signatureText? (report : Decoded) : Option String :=
  match report.result with
  | .ok signature => some signature.text
  | .error _ => none

/-- What is told of each type; nothing if there is no signature. -/
def entries (report : Decoded) : List Entry :=
  match report.result with
  | .ok signature => Report.entries signature
  | .error _ => []

/-- Why there is no signature. -/
def error? (report : Decoded) : Option Error :=
  match report.result with
  | .ok _ => none
  | .error error => some error

/-- The report as JSON. -/
def toJson (report : Decoded) : Json :=
  let entry (entry : Entry) : Json := .object [("role", .string entry.role),
    ("rendered", .string entry.text), ("name", .string entry.name)]
  .object [("kind", .string report.kind.name), ("size", .number report.size),
    ("rendered", .ofOption .string report.signatureText?),
    ("entries", .array (report.entries.map entry)), ("error", .ofOption Error.toJson report.error?)]

/-- The types as a table. -/
def table (report : Decoded) : Table :=
  Listing.addRows (Listing.ofHeadings ["Position", "Type", "Name"]) <|
    report.entries.map fun entry => [entry.role, entry.text, entry.name]

/-- The signature and the listing of its types, laid out by `print`. -/
def text (print : Table → String) (report : Decoded) : String :=
  report.signatureText?.getD "" ++ "\n\n" ++ Listing.render print report.table

end Decoded

end Report

end SignatureBlob
