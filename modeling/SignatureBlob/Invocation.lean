import SignatureBlob.DecodeOptions
import SignatureBlob.SignatureKind

/-!
# Invocations

What the arguments of the command line ask for. Settings are words that begin with a hyphen; they
stand before the command or behind it, those behind it anywhere between its operands. A setting
that takes a value has it in the same word or in the next. Behind `--` all words are operands.

A value in a word of its own and the operand of `batch` are looked at only when the next setting or
operand begins or the arguments end. So a word that is no setting is reported first.
-/

namespace SignatureBlob

/-! ## Settings -/

/-- The settings of the command line. -/
inductive Setting where
  /-- Reports are JSON. -/
  | json
  /-- The log is shown in full. -/
  | verbose
  /-- Help is asked for. -/
  | help
  /-- The version is asked for. -/
  | version
  /-- Bytes behind a signature are refused. -/
  | strict
  /-- The kind of signature. -/
  | kind
  /-- The limit on nesting. -/
  | maxDepth
deriving DecidableEq, Repr

namespace Setting

/-- The long name, which follows two hyphens. -/
def long : Setting → String
  | json => "json"
  | verbose => "verbose"
  | help => "help"
  | version => "version"
  | strict => "strict"
  | kind => "kind"
  | maxDepth => "max-depth"

/-- The letter, which follows one hyphen. -/
def letter? : Setting → Option Char
  | verbose => some 'v'
  | help => some 'h'
  | version => some 'V'
  | kind => some 'k'
  | json | strict | maxDepth => none

/-- Whether the setting takes a value. -/
def takesValue : Setting → Bool
  | kind | maxDepth => true
  | _ => false

end Setting

/-- The commands. -/
inductive CommandName where
  | decode
  | batch
deriving DecidableEq, Repr

namespace CommandName

/-- The word that selects the command. -/
def word : CommandName → String
  | decode => "decode"
  | batch => "batch"

/-- The command that a word selects. -/
def ofWord? (word : String) : Option CommandName :=
  [decode, batch].find? fun command => command.word == word

/-- The settings that may follow the command. -/
def settings : CommandName → List Setting
  | decode => [.json, .verbose, .help, .strict, .kind, .maxDepth]
  | batch => [.json, .verbose, .help, .strict, .maxDepth]

/-- The name of the operand. -/
def operand : CommandName → String
  | decode => "HEX"
  | batch => "FILE"

end CommandName

/-- The settings that may stand before the command. -/
def leadingSettings : List Setting := [.json, .verbose, .help, .version]

/-- The word for a command that shows help. -/
def helpWord : String := "help"

/-! ## Usage errors -/

/-- Why arguments ask for nothing that can be done. -/
inductive UsageError where
  /-- There are no arguments. -/
  | noArguments
  /-- There are settings but no command. -/
  | noCommand
  /-- A word stands in the place of a command and is none. -/
  | unknownCommand (word : String)
  /-- Help is asked for. -/
  | helpRequested
  /-- The version is asked for. -/
  | versionRequested
  /-- A word is neither a setting nor an operand here. -/
  | unknownArgument (argument : String)
  /-- A setting that takes no value has one. -/
  | unneededValue (setting : Setting)
  /-- The value of a setting is missing. -/
  | missingValue (setting : Setting)
  /-- The value of a setting is not among its values. -/
  | invalidValue (setting : Setting) (value : String)
  /-- The value of a setting is no number within bounds. -/
  | malformedNumber (setting : Setting) (value : String)
  /-- A setting is given twice. -/
  | repeated (setting : Setting)
  /-- The path of the file is empty. -/
  | emptyPath
  /-- The operand of the command is missing. -/
  | missingOperand (command : CommandName)
deriving DecidableEq, Repr

/-- The error in words. -/
def UsageError.message : UsageError → String
  | noArguments => "a command is needed: decode or batch"
  | noCommand => "a command is needed: decode or batch"
  | unknownCommand word => "unknown command '" ++ word ++ "'"
  | helpRequested => "decode signature blobs: decode [--kind KIND] HEX... or batch FILE"
  | versionRequested => "0.1.0"
  | unknownArgument argument => "unexpected argument '" ++ argument ++ "'"
  | unneededValue setting => "--" ++ setting.long ++ " takes no value"
  | missingValue setting => "--" ++ setting.long ++ " needs a value"
  | invalidValue setting value => "invalid value '" ++ value ++ "' for --" ++ setting.long
  | malformedNumber setting value => "invalid value '" ++ value ++ "' for --" ++ setting.long
  | repeated setting => "--" ++ setting.long ++ " is given more than once"
  | emptyPath => "the path of the file is empty"
  | missingOperand command => command.word ++ " needs an operand: " ++ command.operand

/-! ## Words -/

/-- The mark behind which all words are operands. -/
def operandMark : String := "--"

/-- The form of an argument that is not `operandMark`. -/
inductive Word where
  /-- A long name, and what follows an equals sign. -/
  | long (name : String) (value : Option String)
  /-- Letters, of which the last may be followed by its value. -/
  | letters (letters : List Char)
  /-- Any other word, a single hyphen and the empty word among them. -/
  | plain (text : String)
deriving DecidableEq, Repr

/-- The form of an argument. -/
def Word.ofString (argument : String) : Word :=
  match argument.toList with
  | '-' :: '-' :: rest =>
    match rest.dropWhile (· != '=') with
    | [] => long (String.ofList rest) none
    | _ :: value => long (String.ofList (rest.takeWhile (· != '='))) (some (String.ofList value))
  | '-' :: letter :: rest => letters (letter :: rest)
  | _ => plain argument

/-- The setting of a long name, among some settings. -/
def Setting.ofLong? (settings : List Setting) (name : String) : Option Setting :=
  settings.find? fun setting => setting.long == name

/-- The setting of a letter, among some settings. -/
def Setting.ofLetter? (settings : List Setting) (letter : Char) : Option Setting :=
  settings.find? fun setting => setting.letter? == some letter

/-! ## Numbers -/

/-- One more than the largest value of a number. -/
def numberLimit : Nat := 0x10000000000000000

/-- A number: decimal digits, perhaps behind a plus sign, below `numberLimit`. -/
def number? (text : String) : Option Nat :=
  let digits := match text.toList with
    | '+' :: digits => digits
    | digits => digits
  if digits.isEmpty || !digits.all Char.isDigit then none
  else
    let value := digits.foldl (fun number c => number * 10 + (c.toNat - '0'.toNat)) 0
    if value < numberLimit then some value else none

/-! ## Reading the words of a command -/

/-- What is not settled yet. -/
inductive Pending where
  | nothing
  /-- A setting waits for its value. -/
  | awaiting (setting : Setting)
  /-- A setting has a value that was not looked at. -/
  | valued (setting : Setting) (value : String)
  /-- A path was given and not looked at. -/
  | path (path : String)
deriving DecidableEq, Repr

/-- What the words so far have said. -/
structure Progress where
  /-- The settings that were given. -/
  seen : List Setting := []
  /-- The kind of signature. -/
  kind : SignatureKind := .method
  /-- The limits of decoding. -/
  options : DecodeOptions := {}
  /-- The operands. -/
  operands : List String := []
  /-- What is not settled yet. -/
  pending : Pending := .nothing
deriving DecidableEq, Repr

namespace Progress

/-- Note that a setting is given; it may be given once. -/
def note (progress : Progress) (setting : Setting) : Except UsageError Progress :=
  if progress.seen.contains setting then .error (.repeated setting)
  else .ok { progress with seen := setting :: progress.seen }

/-- Note the value of a setting. -/
def noteValue (progress : Progress) (setting : Setting) (value : String) :
    Except UsageError Progress := do
  let progress ← progress.note setting
  match setting with
  | .kind =>
    match SignatureKind.ofName? value with
    | some kind => .ok { progress with kind }
    | none => .error (.invalidValue setting value)
  | .maxDepth =>
    match number? value with
    | some maxDepth => .ok { progress with options := { progress.options with maxDepth } }
    | none => .error (.malformedNumber setting value)
  | _ => .error (.unneededValue setting)

/-- Settle what is pending. -/
def settle (progress : Progress) : Except UsageError Progress :=
  let settled := { progress with pending := .nothing }
  match progress.pending with
  | .nothing => .ok progress
  | .awaiting setting => .error (.missingValue setting)
  | .valued setting value => settled.noteValue setting value
  | .path path =>
    if path.isEmpty then .error .emptyPath
    else .ok { settled with operands := settled.operands ++ [path] }

/-- Give a setting that takes no value. -/
def give (progress : Progress) (setting : Setting) : Except UsageError Progress := do
  let progress ← progress.settle
  match setting with
  | .help => .error .helpRequested
  | .version => .error .versionRequested
  | .strict =>
    let progress ← progress.note setting
    .ok { progress with options := { progress.options with strict := true } }
  | _ => progress.note setting

/-- Give a setting that takes a value. The value may come later. -/
def giveValue (progress : Progress) (setting : Setting) (value : Option String) :
    Except UsageError Progress := do
  let progress ← progress.settle
  match value with
  | some value => progress.noteValue setting value
  | none => .ok { progress with pending := .awaiting setting }

/-- Give settings by their letters. -/
def giveLetters (settings : List Setting) : List Char → Progress → Except UsageError Progress
  | [], progress => .ok progress
  | letter :: rest, progress =>
    match Setting.ofLetter? settings letter with
    | none => .error (.unknownArgument (String.ofList ['-', letter]))
    | some setting =>
      if setting.takesValue then
        progress.giveValue setting <| match rest with
          | [] => none
          | '=' :: value => some (String.ofList value)
          | value => some (String.ofList value)
      else do
        let progress ← progress.give setting
        giveLetters settings rest progress

/-- Give a setting by its long name. -/
def giveLong (settings : List Setting) (progress : Progress) (name : String)
    (value : Option String) : Except UsageError Progress :=
  match Setting.ofLong? settings name with
  | none => .error (.unknownArgument ("--" ++ name))
  | some setting =>
    if setting.takesValue then progress.giveValue setting value
    else if value.isSome then .error (.unneededValue setting)
    else progress.give setting

/-- Whether the command has its only path already. -/
def hasPath (progress : Progress) : Bool :=
  !progress.operands.isEmpty || progress.pending matches .path _

/-- Give an operand. -/
def giveOperand (command : CommandName) (progress : Progress) (operand : String) :
    Except UsageError Progress :=
  match command with
  | .decode => do
    let progress ← progress.settle
    .ok { progress with operands := progress.operands ++ [operand] }
  | .batch =>
    if progress.hasPath then .error (.unknownArgument operand)
    else do
      let progress ← progress.settle
      .ok { progress with pending := .path operand }

/-- Read a word of a command. -/
def readWord (command : CommandName) (progress : Progress) : Word → Except UsageError Progress
  | .long name value => progress.giveLong command.settings name value
  | .letters letters => giveLetters command.settings letters progress
  | .plain text =>
    match progress.pending with
    | .awaiting setting => .ok { progress with pending := .valued setting text }
    | _ => progress.giveOperand command text

/-- Settle what is pending at the end, where the operand must be there. -/
def conclude (command : CommandName) (progress : Progress) : Except UsageError Progress := do
  let progress ← progress.settle
  if progress.operands.isEmpty then .error (.missingOperand command) else .ok progress

/-- Read the arguments of a command. -/
def readArguments (command : CommandName) : List String → Progress → Except UsageError Progress
  | [], progress => progress.conclude command
  | argument :: arguments, progress =>
    if argument = operandMark then do
      let progress ← arguments.foldlM (giveOperand command) progress
      progress.conclude command
    else do
      let progress ← progress.readWord command (Word.ofString argument)
      readArguments command arguments progress

end Progress

/-! ## Invocations -/

/-- What is to be done. -/
inductive Command where
  /-- Decode one blob from hexadecimal words. -/
  | decode (kind : SignatureKind) (words : List String)
  /-- Decode the method signatures of a file. -/
  | batch (path : String)
deriving DecidableEq, Repr

/-- What is to be done, and how. -/
structure Invocation where
  /-- Reports are JSON, and nothing is logged. -/
  json : Bool
  /-- The log is shown in full. -/
  verbose : Bool
  /-- The limits of decoding. -/
  options : DecodeOptions
  /-- What is to be done. -/
  command : Command
deriving DecidableEq, Repr

namespace Invocation

/-- The command in the words behind its name. -/
def ofCommand (seen : List Setting) (name : CommandName) (arguments : List String) :
    Except UsageError Invocation := do
  let progress ← Progress.readArguments name arguments {}
  let all := seen ++ progress.seen
  let command := match name with
    | .decode => .decode progress.kind progress.operands
    | .batch => .batch (progress.operands.headD "")
  .ok {
    json := all.contains .json
    verbose := all.contains .verbose
    options := progress.options
    command }

/-- What words behind the help command ask for. -/
def ofHelp : List String → UsageError
  | [] => .helpRequested
  | [word] =>
    if (CommandName.ofWord? word).isSome || word == helpWord then .helpRequested
    else .unknownCommand word
  | word :: next :: _ =>
    if (CommandName.ofWord? word).isSome || word == helpWord then .unknownCommand next
    else .unknownCommand word

/-- Why words behind `--` and before a command ask for nothing. -/
def ofOperands (seen : List Setting) : List String → UsageError
  | [] => if seen.isEmpty then .noArguments else .noCommand
  | word :: _ =>
    if (CommandName.ofWord? word).isSome || word == helpWord then .unknownArgument word
    else .unknownCommand word

/-- Read arguments up to the command, the settings so far being in `progress`. -/
def ofArgumentsFrom (progress : Progress) : List String → Except UsageError Invocation
  | [] => .error (ofOperands progress.seen [])
  | argument :: arguments =>
    match CommandName.ofWord? argument with
    | some name => ofCommand progress.seen name arguments
    | none =>
      if argument == helpWord then .error (ofHelp arguments)
      else if argument == operandMark then .error (ofOperands progress.seen arguments)
      else
        match Word.ofString argument with
        | .plain word => .error (.unknownCommand word)
        | .long name value => do
          let progress ← progress.giveLong leadingSettings name value
          ofArgumentsFrom progress arguments
        | .letters letters => do
          let progress ← Progress.giveLetters leadingSettings letters progress
          ofArgumentsFrom progress arguments

/-- What the arguments of the command line ask for. -/
def ofArguments (arguments : List String) : Except UsageError Invocation :=
  ofArgumentsFrom {} arguments

end Invocation

end SignatureBlob
