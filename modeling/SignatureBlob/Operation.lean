import SignatureBlob.CodedToken

/-!
# Operations on a cursor

What can be asked of a cursor, as data, so that whole sequences of requests can be carried out and
reasoned about. A transaction holds a sequence of its own, which is undone when a part of it fails.
-/

namespace SignatureBlob

/-- A request to a cursor. -/
inductive Operation where
  | length
  | isEmpty
  | hasMore
  | position
  | remaining
  | peek
  | byte
  | skip
  | ensure (count : Nat)
  | bytes (count : Nat)
  | unsigned
  | unsignedOrNull
  | signed
  | token
  | transaction (operations : List Operation)
deriving Repr

/-- The answer to a request. -/
inductive Answer where
  /-- The request is met, and there is nothing to say. -/
  | done
  | null
  | flag (value : Bool)
  | number (value : Int)
  | bytes (bytes : List UInt8)
  | token (token : Token)
  | each (answers : List Answer)
deriving Repr

namespace ByteReader

variable {m : Type → Type} [ByteReader m]

mutual

/-- How a request is met. -/
def meet : Operation → m Answer
  | .length => return .number (← length)
  | .isEmpty => return .flag (← isEmpty)
  | .hasMore => return .flag (← hasMore)
  | .position => return .number (← position)
  | .remaining => return .number (← remaining)
  | .peek => return .number (← peek).toNat
  | .byte => return .number (← byte).toNat
  | .skip => do
    skip
    return .done
  | .ensure count => do
    ensure count
    return .done
  | .bytes count => return .bytes (← bytes count)
  | .unsigned => return .number (← CompressedInt.readUnsigned)
  | .unsignedOrNull => return (← CompressedInt.readUnsigned?).elim .null fun value => .number value
  | .signed => return .number (← CompressedInt.readSigned)
  | .token => return .token (← CodedToken.read)
  | .transaction operations => return .each (← transaction (meetEach operations))

/-- Requests met one after the other, until one fails. -/
def meetEach : List Operation → m (List Answer)
  | [] => return []
  | operation :: operations => do
    let answer ← meet operation
    let answers ← meetEach operations
    return answer :: answers

end

end ByteReader

namespace Operation

/-- How a request is met by a decoder. -/
abbrev decoder (operation : Operation) : Decoder Answer := ByteReader.meet operation

/-- Carry out requests one after the other, going on after failures. -/
def runAll (operations : List Operation) (start : Cursor) : List (Outcome Answer) :=
  Decoder.runEach (operations.map decoder) start

end Operation

end SignatureBlob
