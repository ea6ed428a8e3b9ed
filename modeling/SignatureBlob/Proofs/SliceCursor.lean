import SignatureBlob.Operation
import SignatureBlob.Proofs.Session

/-!
# Cursors in slices

A cursor that holds the whole blob and the place in it as a number, as a machine does. The bytes
ahead are not a list of their own here, so nothing but the operations keeps the place in the blob:
what is left is a difference, the end of a read is a sum of two addresses, and the bytes between two
places are cut out. Each of these steps crashes where a machine with checked arithmetic does, and so
does a move out of the blob.

From a place in a blob that can be addressed no operation crashes, and each does what its decoder
does.

Main definition: `SliceRead`, a way to read bytes. Main statement: `SliceRead.simulates_meet`.
-/

namespace SignatureBlob

/-! ## Places in a blob -/

namespace Cursor.IsIn

variable {blob : List UInt8} {cursor : Cursor}

/-- The number of bytes ahead is the length less the place. -/
theorem remaining_eq (h : cursor.IsIn blob) :
    cursor.remaining = blob.length - cursor.position := by
  rw [remaining, h.2, List.length_drop]

/-- The bytes behind a place and those ahead of it are all of the blob. -/
theorem length_eq (h : cursor.IsIn blob) : cursor.length = blob.length := by
  rw [length, h.remaining_eq]
  exact Nat.add_sub_of_le h.1

/-- The blob of a cursor is empty if the blob is. -/
theorem isEmpty_eq (h : cursor.IsIn blob) : cursor.isEmpty = blob.isEmpty := by
  rw [isEmpty, h.length_eq]
  cases blob <;> rfl

/-- There is more as long as the place is not the end. -/
theorem hasMore_eq (h : cursor.IsIn blob) :
    cursor.hasMore = decide (cursor.position < blob.length) := by
  rw [hasMore, h.2, Bool.eq_iff_iff, decide_eq_true_iff]
  simp

/-- The next byte is the one at the place. -/
theorem head?_ahead (h : cursor.IsIn blob) : cursor.ahead.head? = blob[cursor.position]? := by
  rw [h.2, List.head?_drop]

/-- The bytes that are gone over are those between the two places. -/
theorem drop_take_stop {bytes : List UInt8} {stop : Cursor} (h : cursor.IsIn blob)
    (hpasses : cursor.Passes bytes stop) :
    (blob.take stop.position).drop cursor.position = bytes := by
  rw [hpasses.2, List.drop_take, Nat.add_sub_cancel_left, ← h.2, hpasses.1, List.take_left]

end Cursor.IsIn

/-! ## Cursors in slices -/

/-- The number of addresses of a machine with words of 64 bits. -/
def addressLimit : Nat := 0x10000000000000000

/-- A blob and the number of bytes behind the cursor. -/
structure SliceCursor where
  data : List UInt8
  position : Nat
deriving DecidableEq, Repr

/-- The cursor before the first byte of a blob. -/
def SliceCursor.start (blob : List UInt8) : SliceCursor := ⟨blob, 0⟩

/-- What is done with a cursor, which may move on failure too; there is nothing after a crash. -/
abbrev SliceRead := ExceptT Error (StateT SliceCursor Option)

namespace SliceRead

variable {α β : Type}

/-! ## Sequences -/

/-- A sequence goes on from where the first part stopped. -/
theorem run_bind_ok {read : SliceRead α} {cursor after : SliceCursor} {value : α}
    (h : read cursor = some (.ok value, after)) (next : α → SliceRead β) :
    (read >>= next) cursor = next value after := by
  simp only [bind, ExceptT.bind, ExceptT.mk, StateT.bind, h, Option.bind_some, ExceptT.bindCont]

/-- A sequence stops where its first part fails. -/
theorem run_bind_error {read : SliceRead α} {cursor after : SliceCursor} {error : Error}
    (h : read cursor = some (.error error, after)) (next : α → SliceRead β) :
    (read >>= next) cursor = some (.error error, after) := by
  simp only [bind, ExceptT.bind, ExceptT.mk, StateT.bind, h, Option.bind_some, ExceptT.bindCont]
  rfl

/-- To ask for the cursor leaves it as it is. -/
theorem run_get (cursor : SliceCursor) :
    (get : SliceRead SliceCursor) cursor = some (.ok cursor, cursor) := rfl

/-! ## Checked steps -/

/-- There is nothing after a crash. -/
def crash : SliceRead α := fun _ => none

/-- The difference of two numbers, which must not be below zero. -/
def subtract (total part : Nat) : SliceRead Nat :=
  if part ≤ total then return total - part else crash

/-- The sum of two numbers, which must be an address. -/
def add (first second : Nat) : SliceRead Nat :=
  if first + second < addressLimit then return first + second else crash

/-- The bytes between two places, which must be in the blob and in order. -/
def slice (first last : Nat) : SliceRead (List UInt8) := do
  let cursor ← get
  if first ≤ last ∧ last ≤ cursor.data.length then
    return (cursor.data.take last).drop first
  else crash

/-- Move to a place, which must be in the blob. -/
def moveTo (place : Nat) : SliceRead Unit := do
  let cursor ← get
  if place ≤ cursor.data.length then set { cursor with position := place } else crash

/-! ## Reads -/

/-- The number of bytes of the blob. -/
def length : SliceRead Nat := return (← get).data.length

/-- Whether the blob has no bytes. -/
def isEmpty : SliceRead Bool := return (← get).data.isEmpty

/-- The place of the cursor. -/
def position : SliceRead Nat := return (← get).position

/-- Whether there are bytes ahead. -/
def hasMore : SliceRead Bool := return (← position) < (← length)

/-- The number of bytes ahead. -/
def remaining : SliceRead Nat := do
  subtract (← length) (← position)

/-- Fail unless `needed` bytes are ahead. -/
def ensure (needed : Nat) : SliceRead Unit := do
  if (← remaining) < needed then throw (.truncated (← position) needed (← remaining))

/-- The next byte, which stays ahead. -/
def peek : SliceRead UInt8 := do
  let cursor ← get
  match cursor.data[cursor.position]? with
  | some byte => return byte
  | none => throw (.truncated cursor.position 1 0)

/-- The next byte. -/
def byte : SliceRead UInt8 := do
  let byte ← peek
  moveTo (← add (← position) 1)
  return byte

/-- The next `count` bytes, or none of them. -/
def bytes (count : Nat) : SliceRead (List UInt8) := do
  ensure count
  let first ← position
  let last ← add first count
  let bytes ← slice first last
  moveTo last
  return bytes

/-- Go back to the place of the start on failure. -/
def transaction (read : SliceRead α) : SliceRead α := fun cursor => do
  match ← read cursor with
  | (.ok value, after) => some (.ok value, after)
  | (.error error, after) => some (.error error, { after with position := cursor.position })

/-- What is ahead is told by the place, so each read is checked. -/
instance : ByteReader SliceRead where
  length := length
  isEmpty := isEmpty
  hasMore := hasMore
  position := position
  remaining := remaining
  peek := peek
  byte := byte
  ensure := ensure
  bytes := bytes
  fail := throw
  transaction := transaction

/-! ## Runs -/

section

variable {blob : List UInt8} {place count : Nat}

/-- The place is in the blob, so the difference is not below zero. -/
theorem run_remaining (h : place ≤ blob.length) :
    remaining ⟨blob, place⟩ = some (.ok (blob.length - place), ⟨blob, place⟩) := by
  show subtract blob.length place _ = _
  rw [subtract, if_pos h]
  rfl

/-- Enough bytes are ahead. -/
theorem run_ensure_of_le (h : place + count ≤ blob.length) :
    ensure count ⟨blob, place⟩ = some (.ok (), ⟨blob, place⟩) := by
  have hplace : place ≤ blob.length := by omega
  rw [ensure, run_bind_ok (run_remaining hplace), if_neg (by omega)]
  rfl

/-- Too few bytes are ahead, and it is told how many. -/
theorem run_ensure_of_lt (hplace : place ≤ blob.length) (h : blob.length < place + count) :
    ensure count ⟨blob, place⟩ =
      some (.error (.truncated place count (blob.length - place)), ⟨blob, place⟩) := by
  rw [ensure, run_bind_ok (run_remaining hplace), if_pos (by omega)]
  show (remaining >>= _) _ = _
  rw [run_bind_ok (run_remaining hplace)]
  rfl

/-- Bytes of the blob end at an address, and the move behind them stays in the blob. -/
theorem run_add (hblob : blob.length < addressLimit) (h : place + count ≤ blob.length) :
    add place count ⟨blob, place⟩ = some (.ok (place + count), ⟨blob, place⟩) := by
  rw [add, if_pos (Nat.lt_of_le_of_lt h hblob)]
  rfl

/-- Between two places of the blob in order, the bytes are cut out. -/
theorem run_slice {last : Nat} (hfirst : place ≤ last) (hlast : last ≤ blob.length) :
    slice place last ⟨blob, place⟩ = some (.ok ((blob.take last).drop place), ⟨blob, place⟩) := by
  show (if place ≤ last ∧ last ≤ blob.length then _ else _ : SliceRead _) _ = _
  rw [if_pos ⟨hfirst, hlast⟩]
  rfl

/-- A move in the blob is made. -/
theorem run_moveTo {last : Nat} (h : last ≤ blob.length) :
    moveTo last ⟨blob, place⟩ = some (.ok (), ⟨blob, last⟩) := by
  show (if last ≤ blob.length then _ else _ : SliceRead _) _ = _
  rw [if_pos h]
  rfl

/-- A byte at the place is seen. -/
theorem run_peek_of_some {next : UInt8} (h : blob[place]? = some next) :
    peek ⟨blob, place⟩ = some (.ok next, ⟨blob, place⟩) := by
  rw [peek, run_bind_ok (run_get _)]
  dsimp only
  rw [h]
  rfl

/-- No byte is at the place, so that one is missing. -/
theorem run_peek_of_none (h : blob[place]? = none) :
    peek ⟨blob, place⟩ = some (.error (.truncated place 1 0), ⟨blob, place⟩) := by
  rw [peek, run_bind_ok (run_get _)]
  dsimp only
  rw [h]
  rfl

/-! ## What is read -/

/-- From each place in the blob there is no crash, and the decoder does the same. -/
def Simulates (blob : List UInt8) (read : SliceRead α) (decoder : Decoder α) : Prop :=
  ∀ start : Cursor, start.IsIn blob →
    read ⟨blob, start.position⟩ =
      some ((decoder.run start).result, ⟨blob, (decoder.run start).stop.position⟩) ∧
    (decoder.run start).stop.IsIn blob

/-- To return a value moves nothing. -/
theorem simulates_pure (value : α) : Simulates blob (pure value) (pure value) :=
  fun _ h => ⟨rfl, h⟩

/-- To fail moves nothing. -/
theorem simulates_throw (error : Error) :
    Simulates blob (throw error : SliceRead α) (.fail error) :=
  fun _ h => ⟨rfl, h⟩

/-- A sequence does what a sequence does if its parts do what the parts do. -/
theorem simulates_bind {read : SliceRead α} {decoder : Decoder α} {next : α → SliceRead β}
    {next' : α → Decoder β} (h : Simulates blob read decoder)
    (hnext : ∀ value, Simulates blob (next value) (next' value)) :
    Simulates blob (read >>= next) (decoder >>= next') := by
  intro start hstart
  obtain ⟨hread, hstop⟩ := h start hstart
  cases hrun : decoder.run start with
  | ok value stop =>
    rw [hrun] at hread hstop
    rw [run_bind_ok hread, Decoder.run_bind_ok hrun]
    exact hnext value stop hstop
  | error error stop =>
    rw [hrun] at hread hstop
    rw [run_bind_error hread, Decoder.run_bind_error hrun]
    exact ⟨rfl, hstop⟩

/-- Both go back to the same place. -/
theorem simulates_transaction {read : SliceRead α} {decoder : Decoder α}
    (h : Simulates blob read decoder) : Simulates blob (transaction read) decoder.transaction := by
  intro start hstart
  obtain ⟨hread, hstop⟩ := h start hstart
  cases hrun : decoder.run start with
  | ok value stop =>
    rw [hrun] at hread hstop
    rw [Decoder.run_transaction_eq_ok_iff.2 hrun, transaction, hread]
    exact ⟨rfl, hstop⟩
  | error error stop =>
    rw [hrun] at hread
    rw [Decoder.run_transaction_of_error hrun, transaction, hread]
    exact ⟨rfl, hstart⟩

/-! ## Questions and reads -/

/-- The length is that of the blob. -/
theorem simulates_length : Simulates blob length (.ask Cursor.length) :=
  fun _ h => ⟨by rw [Decoder.run_ask, Outcome.result, h.length_eq]; rfl, h⟩

/-- A blob is empty for both or for neither. -/
theorem simulates_isEmpty : Simulates blob isEmpty (.ask Cursor.isEmpty) :=
  fun _ h => ⟨by rw [Decoder.run_ask, Outcome.result, h.isEmpty_eq]; rfl, h⟩

/-- The place is the same. -/
theorem simulates_position : Simulates blob position .position :=
  fun _ h => ⟨rfl, h⟩

/-- There is more for both or for neither. -/
theorem simulates_hasMore : Simulates blob hasMore (.ask Cursor.hasMore) :=
  fun _ h => ⟨by rw [Decoder.run_ask, Outcome.result, h.hasMore_eq]; rfl, h⟩

/-- The difference is the number of bytes ahead. -/
theorem simulates_remaining : Simulates blob remaining (.ask Cursor.remaining) :=
  fun _ h => ⟨by rw [run_remaining h.1, Decoder.run_ask, Outcome.result, h.remaining_eq]; rfl, h⟩

/-- The byte at the place is the next one ahead. -/
theorem simulates_peek : Simulates blob peek .peek := by
  rintro ⟨place, ahead⟩ h
  have hnext := h.head?_ahead
  cases ahead with
  | nil => exact ⟨run_peek_of_none hnext.symm, h⟩
  | cons next ahead => exact ⟨run_peek_of_some hnext.symm, h⟩

/-- Bytes are missing for both or for neither. -/
theorem simulates_ensure (count : Nat) : Simulates blob (ensure count) (.ensure count) := by
  rintro ⟨place, ahead⟩ h
  have hlength : ahead.length = blob.length - place := h.remaining_eq
  have hplace : place ≤ blob.length := h.1
  by_cases hcount : place + count ≤ blob.length
  · have hahead : count ≤ ahead.length := by omega
    rw [Decoder.run_ensure_of_le hahead]
    exact ⟨run_ensure_of_le hcount, h⟩
  · have hshort : ahead.length < count := by omega
    rw [Decoder.run_ensure_of_lt hshort, hlength]
    exact ⟨run_ensure_of_lt hplace (Nat.lt_of_not_le hcount), h⟩

section Addressable

variable (hblob : blob.length < addressLimit)

include hblob

/-- To take a byte moves to an address in the blob. -/
theorem simulates_byte : Simulates blob byte .byte := by
  rintro ⟨place, ahead⟩ h
  have hnext := h.head?_ahead
  cases ahead with
  | nil =>
    refine ⟨?_, h⟩
    rw [byte, run_bind_error (run_peek_of_none hnext.symm)]
    rfl
  | cons next ahead =>
    -- the place behind a byte of the blob is in the blob, hence an address
    have hpasses : (Cursor.mk place (next :: ahead)).Passes [next] ⟨place + 1, ahead⟩ :=
      ⟨rfl, rfl⟩
    have hstop := (h.passes hpasses).1
    refine ⟨?_, hstop⟩
    rw [byte, run_bind_ok (run_peek_of_some hnext.symm)]
    show (add place 1 >>= _) _ = _
    rw [run_bind_ok (run_add hblob hstop.1), run_bind_ok (run_moveTo hstop.1)]
    rfl

/-- To take bytes cuts out those that are ahead. -/
theorem simulates_bytes (count : Nat) : Simulates blob (bytes count) (.bytes count) := by
  rintro ⟨place, ahead⟩ h
  have hlength : ahead.length = blob.length - place := h.remaining_eq
  have hplace : place ≤ blob.length := h.1
  -- the sum of the addresses is built only in the first case, whatever the count
  by_cases hcount : place + count ≤ blob.length
  · have hahead : count ≤ ahead.length := by omega
    have hpasses : (Cursor.mk place ahead).Passes (ahead.take count)
        ⟨place + count, ahead.drop count⟩ :=
      ⟨(List.take_append_drop count ahead).symm, by rw [List.length_take_of_le hahead]⟩
    have htaken : (blob.take (place + count)).drop place = ahead.take count :=
      h.drop_take_stop hpasses
    rw [Decoder.run_bytes_of_le hahead]
    refine ⟨?_, (h.passes hpasses).1⟩
    rw [bytes, run_bind_ok (run_ensure_of_le hcount)]
    show (add place count >>= _) _ = _
    rw [run_bind_ok (run_add hblob hcount), run_bind_ok (run_slice (Nat.le_add_right _ _) hcount),
      run_bind_ok (run_moveTo hcount), htaken]
    rfl
  · have hshort : ahead.length < count := by omega
    rw [Decoder.run_bytes_of_lt hshort, hlength]
    refine ⟨?_, h⟩
    rw [bytes, run_bind_error (run_ensure_of_lt hplace (Nat.lt_of_not_le hcount))]
    rfl

/-- To step over a byte is to take it. -/
theorem simulates_skip : Simulates blob ByteReader.skip .skip :=
  simulates_bind (simulates_byte hblob) fun _ => simulates_pure ()

/-! ## Integers and tokens -/

open CompressedInt

/-- The payload of an integer is made of the same bytes. -/
theorem simulates_payload : Simulates blob readPayload readPayload := by
  refine simulates_bind simulates_position fun offset =>
    simulates_bind simulates_peek fun lead => ?_
  cases Form.ofLead? lead with
  | none => exact simulates_throw _
  | some form => exact simulates_bind (simulates_bytes hblob form.size) fun _ => simulates_pure _

/-- Unsigned numbers are the same. -/
theorem simulates_unsigned : Simulates blob readUnsigned decodeUnsigned := by
  refine simulates_bind simulates_position fun offset =>
    simulates_bind simulates_peek fun lead => ?_
  split
  · exact simulates_throw _
  · exact simulates_payload hblob

/-- So are those that may be null. -/
theorem simulates_unsigned? : Simulates blob readUnsigned? decodeUnsigned? := by
  refine simulates_bind simulates_peek fun lead => ?_
  split
  · exact simulates_bind (simulates_skip hblob) fun _ => simulates_pure _
  · exact simulates_bind (simulates_payload hblob) fun _ => simulates_pure _

/-- Signed numbers are the same. -/
theorem simulates_signed : Simulates blob readSigned decodeSigned :=
  simulates_bind simulates_peek fun _ =>
    simulates_bind (simulates_unsigned hblob) fun _ => simulates_pure _

/-- Tokens are the same, and both go back at what is none. -/
theorem simulates_token : Simulates blob CodedToken.read CodedToken.decode := by
  refine simulates_bind simulates_position fun offset => simulates_bind simulates_peek fun lead =>
    simulates_transaction (simulates_bind (simulates_unsigned hblob) fun code => ?_)
  cases CodedToken.ofCode code with
  | ok token => exact simulates_pure token
  | error defect => exact simulates_throw _

end Addressable

/-! ## Operations -/

mutual

/-- In a blob that can be addressed no operation crashes, and each does what its decoder does. -/
theorem simulates_meet (hblob : blob.length < addressLimit) :
    ∀ operation : Operation, Simulates blob (ByteReader.meet operation) operation.decoder
  | .length => simulates_bind simulates_length fun _ => simulates_pure _
  | .isEmpty => simulates_bind simulates_isEmpty fun _ => simulates_pure _
  | .hasMore => simulates_bind simulates_hasMore fun _ => simulates_pure _
  | .position => simulates_bind simulates_position fun _ => simulates_pure _
  | .remaining => simulates_bind simulates_remaining fun _ => simulates_pure _
  | .peek => simulates_bind simulates_peek fun _ => simulates_pure _
  | .byte => simulates_bind (simulates_byte hblob) fun _ => simulates_pure _
  | .skip => simulates_bind (simulates_skip hblob) fun _ => simulates_pure _
  | .ensure count => simulates_bind (simulates_ensure count) fun _ => simulates_pure _
  | .bytes count => simulates_bind (simulates_bytes hblob count) fun _ => simulates_pure _
  | .unsigned => simulates_bind (simulates_unsigned hblob) fun _ => simulates_pure _
  | .unsignedOrNull => simulates_bind (simulates_unsigned? hblob) fun _ => simulates_pure _
  | .signed => simulates_bind (simulates_signed hblob) fun _ => simulates_pure _
  | .token => simulates_bind (simulates_token hblob) fun _ => simulates_pure _
  | .transaction operations =>
    simulates_bind (simulates_transaction (simulates_meetEach hblob operations)) fun _ =>
      simulates_pure _

/-- So do operations one after the other. -/
theorem simulates_meetEach (hblob : blob.length < addressLimit) :
    ∀ operations : List Operation,
      Simulates blob (ByteReader.meetEach operations) (ByteReader.meetEach operations)
  | [] => simulates_pure []
  | operation :: operations =>
    simulates_bind (simulates_meet hblob operation) fun _ =>
      simulates_bind (simulates_meetEach hblob operations) fun _ => simulates_pure _

end

end

end SliceRead

end SignatureBlob
