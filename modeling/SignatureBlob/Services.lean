import SignatureBlob.Json
import SignatureBlob.Listing
import SignatureBlob.Log

/-!
# Services

What commands leave to others: how JSON is written, how a table is laid out, and in which order
messages reach the log that come from work done side by side. All that is said of commands is said
for any services; the program itself runs with `Services.standard`.
-/

namespace SignatureBlob

/-- What commands leave to others. -/
structure Services where
  /-- The text of a JSON value. -/
  json : Json → String
  /-- The text of a table, its lines perhaps with blanks at their ends. -/
  table : Table → String
  /-- The order in which messages reach the log that come from work done side by side. -/
  interleave : List LogEntry → List LogEntry
  /-- Each message reaches the log, and none comes twice. -/
  perm_interleave : ∀ entries, (interleave entries).Perm entries

/-- What is printed of data: the data itself or a text made of it, and a line break. -/
def Services.emit (services : Services) (json : Bool) (data : Json) (text : String) : String :=
  (if json then services.json data else text) ++ "\n"

end SignatureBlob
