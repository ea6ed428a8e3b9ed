/-!
# Logs

Messages that are kept beside the output, each with a level that says how much it matters.
-/

namespace SignatureBlob

/-- How much a message matters. -/
inductive LogLevel where
  | info
  | debug
  | trace
deriving DecidableEq, Repr

/-- The name of the level. -/
def LogLevel.name : LogLevel → String
  | info => "INFO"
  | debug => "DEBUG"
  | trace => "TRACE"

/-- A message of the log. -/
structure LogEntry where
  /-- How much the message matters. -/
  level : LogLevel
  /-- The message. -/
  message : String
deriving DecidableEq, Repr

namespace LogEntry

/-- A message that matters to all. -/
def info (message : String) : LogEntry := ⟨.info, message⟩

/-- A message that matters only to those who look for it. -/
def debug (message : String) : LogEntry := ⟨.debug, message⟩

/-- A message about one step of many. -/
def trace (message : String) : LogEntry := ⟨.trace, message⟩

end LogEntry

end SignatureBlob
