import SignatureBlob.Json.Text
import SignatureBlob.Services
import SignatureBlob.Table.Layout

/-!
# The services of the program

The text of `Json.text` and the layout of `Table.text`; messages reach the log in order.
-/

namespace SignatureBlob

/-- The services of the program. -/
def Services.standard : Services where
  json := Json.text
  table := Table.text
  interleave entries := entries
  perm_interleave _ := .refl _

end SignatureBlob
