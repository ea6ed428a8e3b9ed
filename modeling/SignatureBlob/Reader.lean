import SignatureBlob.Decoder

/-!
# Readers

The rules of the grammar that have types inside, or loops, do not care who reads: a decoder, a
parser that counts the types that are open, or a recorder that keeps a journal. They are stated
once, for any way to read that takes decoders as they are and is told of each turn of a loop and of
each list.

Main definition: `Reader`.
-/

namespace SignatureBlob

/-- A way to read that decoders are part of. -/
class Reader (m : Type → Type) extends Monad m, MonadLift Decoder m where
  /-- Read in one turn of a loop. -/
  turn {α : Type} : m α → m α
  /-- Read what should hold a list of `count` members; `length` tells how many it holds. -/
  tally {α : Type} : m α → (count : Nat) → (length : α → Nat) → m α

/-- A decoder only reads. -/
instance : Reader Decoder where
  monadLift decoder := decoder
  turn decoder := decoder
  tally decoder _ _ := decoder

namespace Reader

variable {α : Type} {m : Type → Type} [Reader m]

/-- Read `count` values, each in a turn of the loop. -/
def items (item : m α) : (count : Nat) → m (List α)
  | 0 => return []
  | count + 1 => do
    let value ← turn item
    let values ← items item count
    return value :: values

/-- A list whose count has just been read. -/
def list (item : m α) (count : Nat) : m (List α) := tally (items item count) count List.length

/-- A decoder of which a decoder takes part is that decoder. -/
@[simp] theorem lift_decoder (decoder : Decoder α) : (liftM decoder : Decoder α) = decoder := rfl

/-- A turn means nothing to a decoder. -/
@[simp] theorem turn_decoder (decoder : Decoder α) : turn decoder = decoder := rfl

/-- A list means nothing to a decoder but its members. -/
@[simp] theorem tally_decoder (decoder : Decoder α) (count : Nat) (length : α → Nat) :
    tally decoder count length = decoder := rfl

end Reader

namespace Decoder

variable {α : Type}

/-- Read `count` values one after the other. -/
abbrev list (item : Decoder α) (count : Nat) : Decoder (List α) := Reader.list item count

/-- Values are read one after the other. -/
theorem list_succ (item : Decoder α) (count : Nat) :
    item.list (count + 1) = item >>= fun value => item.list count >>= fun values =>
      pure (value :: values) := rfl

end Decoder

end SignatureBlob
