import SignatureBlob.Execution
import SignatureBlob.Services.Standard

/-!
# The command line

Reads the arguments and the file that they name, and prints what the execution gives: its text on
the standard output, its log and the messages of its failure on the standard error.
-/

namespace SignatureBlob

/-- Why a file could not be read. A code of the system may also come negated. -/
def FileError.ofSystem (error : IO.Error) : FileError :=
  let isCode (code wanted : UInt32) : Bool := code == wanted || code == 0 - wanted
  match error with
  | .noFileOrDirectory .. => .missing
  | .permissionDenied .. => .denied
  | .inappropriateType _ code _ => if isCode code 21 then .isDirectory else .notDirectory
  | .invalidArgument _ code _ =>
    if isCode code 36 then .nameTooLong else .other (toString error)
  | error => .other (toString error)

/-- The contents of a file. -/
def readContents (path : String) : IO (Except FileError String) := do
  try
    let bytes ← IO.FS.readBinFile path
    return FileError.decodeText bytes.toList
  catch error =>
    return .error (FileError.ofSystem error)

/-- One line for a message of the log. -/
def LogEntry.line (entry : LogEntry) : String :=
  match entry.level with
  | .info => "[INFO ] " ++ entry.message
  | .debug => "[DEBUG] " ++ entry.message
  | .trace => "[TRACE] " ++ entry.message

/-- The messages of a failure over several lines. -/
def failureText : List String → String
  | [] => ""
  | [message] => "Error: " ++ message
  | message :: [cause] => "Error: " ++ message ++ "\n\nCaused by:\n    " ++ cause
  | message :: causes =>
    let numbered := causes.zipIdx.map fun (cause, index) =>
      "\n    " ++ toString index ++ ": " ++ cause
    "Error: " ++ message ++ "\n\nCaused by:" ++ String.join numbered

/-- Carry out an invocation; the answer is the exit code. -/
def Invocation.run (invocation : Invocation) : IO UInt32 := do
  let contents ← match invocation.path? with
    | some path => readContents path
    | none => pure (.ok "")
  let execution := invocation.execute .standard contents
  for entry in execution.shown invocation do
    IO.eprintln entry.line
  IO.print execution.output
  if execution.failure.isEmpty then return 0
  IO.eprintln (failureText execution.failure)
  return 1

end SignatureBlob

/-- Carry out what the arguments ask for. -/
def main (arguments : List String) : IO UInt32 := do
  match SignatureBlob.Invocation.ofArguments arguments with
  | .ok invocation => invocation.run
  | .error .helpRequested =>
    IO.println SignatureBlob.UsageError.helpRequested.message
    return 0
  | .error .versionRequested =>
    IO.println SignatureBlob.UsageError.versionRequested.message
    return 0
  | .error error =>
    IO.eprintln ("error: " ++ error.message)
    return 2
