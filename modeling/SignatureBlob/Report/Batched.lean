import SignatureBlob.MethodBatch
import SignatureBlob.Report.Decoded

/-!
# The report on a file of blobs

What decoding the blobs of a file gave, line by line, as a listing or as JSON.
-/

namespace SignatureBlob.Report

/-- What decoding the blobs of a file gave. -/
structure Batched where
  /-- The method in each line, or why there is none, with the numbers of the lines. -/
  entries : List (Nat × Except Error MethodSig)

namespace Batched

/-- The number of lines without a method. -/
def failed (report : Batched) : Nat := MethodBatch.failures (report.entries.map Prod.snd)

/-- The number of lines with a method. -/
def decoded (report : Batched) : Nat := report.entries.length - report.failed

/-- What is told of one line. -/
def entryText : Except Error MethodSig → String
  | .ok method => method.text
  | .error error => "error: " ++ error.message

/-- One line as JSON. -/
def entryJson : Nat × Except Error MethodSig → Json
  | (line, .ok method) =>
    .object [("line", .number line), ("rendered", .string method.text), ("error", .null)]
  | (line, .error error) =>
    .object [("line", .number line), ("rendered", .null), ("error", error.toJson)]

/-- The report as JSON. -/
def toJson (report : Batched) : Json :=
  .object [("decoded", .number report.decoded), ("failed", .number report.failed),
    ("entries", .array (report.entries.map entryJson))]

/-- The lines as a table. -/
def table (report : Batched) : Table :=
  Listing.addRows (Listing.alignRight 0 (Listing.ofHeadings ["Line", "Signature"])) <|
    report.entries.map fun (line, result) => [toString line, entryText result]

/-- The counts of lines in words. -/
def summary (report : Batched) : String :=
  toString report.decoded ++ " decoded, " ++ toString report.failed ++ " failed"

end Batched

end SignatureBlob.Report
