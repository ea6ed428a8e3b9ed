import SignatureBlob.Subject

/-!
# Parsers

A parser stands at a place in a blob and counts the types that are open there. Several subjects are
asked of one parser, one after the other and also after failures. It reads by the rules of the
decoders, but the limit on nesting is held against the count: where a type begins one is added, and
where it ends, well or not, one is taken off.

Main definitions: `Parse.subject` (one call) and `Parser.answers` (the calls of a session).
Main statements: `Parse.nested_of_le` and `Parse.nested_of_lt` (the limit and the count).
-/

namespace SignatureBlob

/-- A parser of a blob. -/
structure Parser where
  /-- The place of the parser. -/
  cursor : Cursor
  /-- The number of types that are open at the place. -/
  nesting : Nat
deriving DecidableEq, Repr

/-- The parser before the first byte of a blob. -/
def Parser.start (blob : List UInt8) : Parser := ⟨.start blob, 0⟩

/-- What is done with a parser. It moves on failure too. -/
abbrev Parse := ExceptT Error (StateM Parser)

namespace Parse

variable {α β : Type}

/-! ## Sequences -/

/-- Behind a value the parser goes on as it was left. -/
theorem run_bind_ok {parse : Parse α} {parser after : Parser} {value : α}
    (h : parse parser = (.ok value, after)) (next : α → Parse β) :
    (parse >>= next) parser = next value after := by
  simp only [bind, ExceptT.bind, ExceptT.mk, StateT.bind, h, ExceptT.bindCont]

/-- Behind a failure nothing is read. -/
theorem run_bind_error {parse : Parse α} {parser after : Parser} {error : Error}
    (h : parse parser = (.error error, after)) (next : α → Parse β) :
    (parse >>= next) parser = (.error error, after) := by
  simp only [bind, ExceptT.bind, ExceptT.mk, StateT.bind, h, ExceptT.bindCont]
  rfl

/-! ## Reading and nesting -/

/-- Read at the place of the parser. -/
def read (decoder : Decoder α) : Parse α := fun parser =>
  let outcome := decoder.run parser.cursor
  (outcome.result, { parser with cursor := outcome.stop })

/-- Open a type, unless as many as the limit are open, and close it whatever becomes of it. -/
def nested (limit : Nat) (rule : Parse α) : Parse α := fun parser =>
  if limit ≤ parser.nesting then
    (.error (.maxDepthExceeded limit parser.cursor.position), parser)
  else
    let (result, parser) := rule { parser with nesting := parser.nesting + 1 }
    (result, { parser with nesting := parser.nesting - 1 })

/-- With as many types open as the limit no type is begun, and the parser stays as it is. -/
theorem nested_of_le {limit : Nat} {parser : Parser} (h : limit ≤ parser.nesting)
    (rule : Parse α) :
    nested limit rule parser =
      (.error (.maxDepthExceeded limit parser.cursor.position), parser) := by
  simp only [nested, h, if_true]

/-- The type is closed however it ends. -/
theorem nested_of_lt {limit : Nat} {parser after : Parser} {result : Except Error α}
    {rule : Parse α} (h : parser.nesting < limit)
    (hrule : rule { parser with nesting := parser.nesting + 1 } = (result, after)) :
    nested limit rule parser = (result, { after with nesting := after.nesting - 1 }) := by
  simp only [nested, Nat.not_le_of_lt h, if_false, hrule]

/-- A parser keeps no account of turns and lists. -/
instance : Reader Parse where
  monadLift := read
  turn parse := parse
  tally parse _ _ := parse

/-! ## Types and subjects -/

/-- A type, with at most `calls` calls inside one another. With more calls than the limit it is the
count of open types that ends them. -/
def type (limit : Nat) : (calls : Nat) → Parse TypeSig
  | 0 => throw (.maxDepthExceeded limit 0)
  | calls + 1 => fun parser => nested limit (Reader.typeWith (type limit calls)) parser

/-- A subject of a kind. -/
def subject (options : DecodeOptions) : SubjectKind → Parse Subject
  | .signature kind => do
    let whole ← Reader.signature (type options.limit (options.limit + 1)) kind
    Decoder.finish options
    return .signature whole
  | .type => return .type (← type options.limit (options.limit + 1))

end Parse

namespace Parser

/-- What a parser answers when it is asked for subjects of some kinds one after the other, and the
parser as each answer leaves it. -/
def answers (options : DecodeOptions) :
    List SubjectKind → Parser → List (Except Error Subject × Parser)
  | [], _ => []
  | kind :: kinds, parser =>
    let answer := Parse.subject options kind parser
    answer :: answers options kinds answer.2

end Parser

end SignatureBlob
