import SignatureBlob.FileError
import SignatureBlob.HexLines
import SignatureBlob.Invocation
import SignatureBlob.Report.Batched
import SignatureBlob.Services

/-!
# Executions

What an invocation does: the text that it prints, what it logs, and the messages of its failure.
The file that a batch is read from and what is left to others are arguments, so an execution depends
on nothing else.
-/

namespace SignatureBlob

/-- Whether an invocation shows messages of a level, where the environment asks for nothing else. -/
def Invocation.shows (invocation : Invocation) : LogLevel → Bool
  | .info => !invocation.json
  | .debug => !invocation.json && invocation.verbose
  | .trace => false

/-- What an invocation does. -/
@[ext]
structure Execution where
  /-- The text that is printed. -/
  output : String := ""
  /-- The messages of the log, in order. -/
  log : List LogEntry := []
  /-- Why the execution failed, from the general to the particular; no messages if it did not. -/
  failure : List String := []
deriving DecidableEq, Repr

namespace Execution

/-- The messages of the log that an invocation shows. -/
def shown (invocation : Invocation) (execution : Execution) : List LogEntry :=
  execution.log.filter fun entry => invocation.shows entry.level

/-! ## Decoding one blob -/

/-- The message before decoding. -/
def decodingMessage (options : DecodeOptions) (kind : SignatureKind) (size : Nat) : String :=
  "Decoding " ++ toString size ++ " byte(s) as " ++ kind.name ++ " signature (max depth "
    ++ toString options.maxDepth ++ ", strict " ++ toString options.strict ++ ")"

/-- The message about bytes behind a signature. -/
def trailingMessages (outcome : Outcome Signature) : List LogEntry :=
  match outcome with
  | .ok _ stop =>
    if stop.hasMore then
      [.debug (toString stop.remaining ++ " trailing byte(s) ignored")]
    else []
  | .error _ _ => []

/-- Decode one blob and report on it. A blob without a signature is reported in JSON only, and is a
failure in any case. -/
def ofBlob (services : Services) (json : Bool) (options : DecodeOptions) (kind : SignatureKind)
    (blob : List UInt8) : Execution :=
  let outcome := (Signature.decode options kind).run (.start blob)
  let report : Report.Decoded := { kind, size := blob.length, result := outcome.result }
  { output :=
      if report.signatureText?.isSome || json then
        services.emit json report.toJson (report.text services.table)
      else ""
    log := .debug (decodingMessage options kind blob.length) :: trailingMessages outcome
    failure := report.error?.toList.map Error.message }

/-- Decode one blob from words. -/
def ofWords (services : Services) (json : Bool) (options : DecodeOptions) (kind : SignatureKind)
    (words : List String) : Execution :=
  match HexWords.read words with
  | .error error => { failure := error.messages }
  | .ok blob => ofBlob services json options kind blob

/-! ## Decoding a file -/

/-- Decode the blobs of numbered lines and report on them. -/
def ofBlobs (services : Services) (json : Bool) (options : DecodeOptions) (path : String)
    (blobs : List (Nat × List UInt8)) : Execution :=
  let results := MethodBatch.decode options (blobs.map Prod.snd)
  let report : Report.Batched := ⟨(blobs.map Prod.fst).zip results⟩
  { output := services.emit json report.toJson (Listing.render services.table report.table)
    log := .debug ("Read " ++ toString blobs.length ++ " blob(s) from " ++ path)
      :: (MethodBatch.log services.interleave results ++ [.info report.summary]) }

/-- Decode the blobs of a file with known contents. -/
def ofFile (services : Services) (json : Bool) (options : DecodeOptions) (path : String)
    (contents : Except FileError String) : Execution :=
  match contents with
  | .error error => { failure := ["failed to read " ++ path, error.message] }
  | .ok contents =>
    match HexLines.read contents with
    | .error error => { failure := error.messages }
    | .ok blobs => ofBlobs services json options path blobs

end Execution

/-- The file that an invocation reads. -/
def Invocation.path? (invocation : Invocation) : Option String :=
  match invocation.command with
  | .decode _ _ => none
  | .batch path => some path

/-- What an invocation does with some services, given the contents of the file that it reads. -/
def Invocation.execute (invocation : Invocation) (services : Services)
    (contents : Except FileError String) : Execution :=
  match invocation.command with
  | .decode kind words => .ofWords services invocation.json invocation.options kind words
  | .batch path => .ofFile services invocation.json invocation.options path contents

end SignatureBlob
