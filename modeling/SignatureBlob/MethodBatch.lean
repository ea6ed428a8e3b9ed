import SignatureBlob.Log
import SignatureBlob.Signature.Decode

/-!
# Many methods at once

Blobs of method signatures decoded each on its own, so that one that is malformed fails alone, and
the messages that tell how it went. The blobs are decoded side by side: their results come in order,
but what is logged of each comes when it comes.
-/

namespace SignatureBlob.MethodBatch

/-- The method in each blob, or why there is none, in the order of the blobs. -/
def decode (options : DecodeOptions) (blobs : List (List UInt8)) : List (Except Error MethodSig) :=
  blobs.map fun blob => ((MethodSig.decode options).run (.start blob)).result

/-- The number of failures among results. -/
def failures {α : Type} (results : List (Except Error α)) : Nat :=
  results.countP fun
    | .error _ => true
    | .ok _ => false

/-- What is logged of each failure, in the order of the blobs. -/
def failureNotes {α : Type} (results : List (Except Error α)) : List LogEntry :=
  results.zipIdx.filterMap fun
    | (.error error, index) =>
      some (.trace ("Method signature #" ++ toString index ++ " failed: " ++ error.message))
    | (.ok _, _) => none

/-- What is logged of a batch: its size, each failure as it comes, and the number of failures. -/
def log {α : Type} (interleave : List LogEntry → List LogEntry)
    (results : List (Except Error α)) : List LogEntry :=
  .debug ("Decoding " ++ toString results.length ++ " method signature(s)")
    :: (interleave (failureNotes results)
      ++ [.debug ("Decoded method signatures - " ++ toString (failures results) ++ " failed")])

end SignatureBlob.MethodBatch
