import SignatureBlob.ByteReader
import SignatureBlob.Cursor

/-!
# Decoders

A decoder reads a value at a cursor and moves the cursor on. When it fails it leaves the cursor
where it stopped, which is where the failed read began; only `Decoder.transaction` goes back to
the place where a decoder was started.

Main statements: `Decoder.run_bind_ok` and `Decoder.run_bind_error` (a sequence of decoders), and
one equation for each primitive read.
-/

namespace SignatureBlob

/-- What a decoder leaves: a value or an error, and the place where it stopped. -/
inductive Outcome (α : Type) where
  | ok (value : α) (stop : Cursor)
  | error (error : Error) (stop : Cursor)
deriving DecidableEq, Repr

namespace Outcome

variable {α : Type}

/-- The value or the error, without the place. -/
def result : Outcome α → Except Error α
  | ok value _ => .ok value
  | error cause _ => .error cause

/-- The place where the decoder stopped. -/
def stop : Outcome α → Cursor
  | ok _ stop => stop
  | error _ stop => stop

/-- The same outcome with another value. -/
def map {β : Type} (f : α → β) : Outcome α → Outcome β
  | ok value stop => .ok (f value) stop
  | error cause stop => .error cause stop

/-- Another value makes another result, and the same error. -/
theorem result_map {β : Type} (f : α → β) (outcome : Outcome α) :
    (outcome.map f).result = outcome.result.map f := by
  cases outcome <;> rfl

end Outcome

/-- A way to read a value at a cursor. -/
structure Decoder (α : Type) where
  /-- Read at a cursor. -/
  run : Cursor → Outcome α

namespace Decoder

variable {α β : Type}

/-! ## Sequences -/

instance : Monad Decoder where
  pure value := ⟨fun start => .ok value start⟩
  bind first next := ⟨fun start =>
    match first.run start with
    | .ok value stop => (next value).run stop
    | .error error stop => .error error stop⟩

/-- Fail without moving. -/
def fail (error : Error) : Decoder α := ⟨fun start => .error error start⟩

/-- A value that is given back takes no bytes. -/
@[simp] theorem run_pure (value : α) (start : Cursor) :
    (pure value : Decoder α).run start = .ok value start := rfl

/-- What is made of a value is read where the value is. -/
theorem run_map (f : α → β) (decoder : Decoder α) (start : Cursor) :
    (f <$> decoder).run start = (decoder.run start).map f := by
  simp only [Functor.map, Outcome.map]
  cases decoder.run start <;> rfl

/-- Behind a value the next decoder goes on where the first one stopped. -/
theorem run_bind_ok {first : Decoder α} {start stop : Cursor} {value : α}
    (h : first.run start = .ok value stop) (next : α → Decoder β) :
    (first >>= next).run start = (next value).run stop := by
  simp only [bind, h]

/-- Behind a failure nothing is read. -/
theorem run_bind_error {first : Decoder α} {start stop : Cursor} {error : Error}
    (h : first.run start = .error error stop) (next : α → Decoder β) :
    (first >>= next).run start = .error error stop := by
  simp only [bind, h]

/-- A sequence succeeds exactly when both of its parts do. -/
theorem run_bind_eq_ok_iff {first : Decoder α} {next : α → Decoder β} {start stop : Cursor}
    {value : β} :
    (first >>= next).run start = .ok value stop ↔
      ∃ middle place, first.run start = .ok middle place ∧
        (next middle).run place = .ok value stop := by
  constructor
  · intro h
    cases hfirst : first.run start with
    | ok middle place => exact ⟨middle, place, rfl, by rwa [run_bind_ok hfirst] at h⟩
    | error error place => rw [run_bind_error hfirst] at h; cases h
  · rintro ⟨middle, place, hfirst, hnext⟩
    rw [run_bind_ok hfirst, hnext]

/-- A sequence fails exactly when its first part does, or its second part behind the first. -/
theorem run_bind_eq_error_iff {first : Decoder α} {next : α → Decoder β} {start stop : Cursor}
    {error : Error} :
    (first >>= next).run start = .error error stop ↔
      first.run start = .error error stop ∨ ∃ middle place,
        first.run start = .ok middle place ∧ (next middle).run place = .error error stop := by
  constructor
  · intro h
    cases hfirst : first.run start with
    | ok middle place => exact .inr ⟨middle, place, rfl, by rwa [run_bind_ok hfirst] at h⟩
    | error cause place =>
      rw [run_bind_error hfirst] at h
      obtain ⟨rfl, rfl⟩ := Outcome.error.inj h
      exact .inl rfl
  · rintro (hfirst | ⟨middle, place, hfirst, hnext⟩)
    · rw [run_bind_error hfirst]
    · rw [run_bind_ok hfirst, hnext]

/-- A failure stops where it was asked for. -/
@[simp] theorem run_fail (error : Error) (start : Cursor) :
    (fail error : Decoder α).run start = .error error start := rfl

/-! ## Primitive reads -/

/-- A fact about the cursor, which stays where it is. -/
def ask (question : Cursor → α) : Decoder α := ⟨fun start => .ok (question start) start⟩

/-- The number of bytes behind the cursor. -/
def position : Decoder Nat := ask Cursor.position

/-- The next byte, which stays ahead. -/
def peek : Decoder UInt8 := ⟨fun start =>
  match start.ahead with
  | [] => .error (.truncated start.position 1 0) start
  | byte :: _ => .ok byte start⟩

/-- The next byte. -/
def byte : Decoder UInt8 := ⟨fun start =>
  match start.ahead with
  | [] => .error (.truncated start.position 1 0) start
  | byte :: ahead => .ok byte ⟨start.position + 1, ahead⟩⟩

/-- Fail unless `count` bytes are ahead. -/
def ensure (count : Nat) : Decoder Unit := ⟨fun start =>
  if (start.ahead.take count).length < count then
    .error (.truncated start.position count start.remaining) start
  else .ok () start⟩

/-- The next `count` bytes, or none of them. -/
def bytes (count : Nat) : Decoder (List UInt8) := ⟨fun start =>
  match (ensure count).run start with
  | .ok () stop =>
    .ok (stop.ahead.take count) ⟨stop.position + count, stop.ahead.drop count⟩
  | .error error stop => .error error stop⟩

/-- Go back to the start when the decoder fails. -/
def transaction (decoder : Decoder α) : Decoder α := ⟨fun start =>
  match decoder.run start with
  | .ok value stop => .ok value stop
  | .error error _ => .error error start⟩

/-- What is ahead is a list of its own, so no read has to be checked. -/
instance : ByteReader Decoder where
  length := ask Cursor.length
  isEmpty := ask Cursor.isEmpty
  hasMore := ask Cursor.hasMore
  position := position
  remaining := ask Cursor.remaining
  peek := peek
  byte := byte
  ensure := ensure
  bytes := bytes
  fail := fail
  transaction := transaction

/-- Move past the next byte. -/
abbrev skip : Decoder Unit := ByteReader.skip

/-- Refuse the byte `observed` at `offset`. -/
abbrev refuse (offset : Nat) (observed : UInt8) (defect : Defect) : Decoder α :=
  ByteReader.refuse offset observed defect

/-- A refusal stops where it was asked for, and blames the byte that it names. -/
@[simp] theorem run_refuse (offset : Nat) (observed : UInt8) (defect : Defect) (start : Cursor) :
    (refuse offset observed defect : Decoder α).run start =
      .error (.invalidEncoding offset observed defect) start := rfl

/-- A question is answered without a move. -/
@[simp] theorem run_ask (question : Cursor → α) (start : Cursor) :
    (ask question).run start = .ok (question start) start := rfl

/-- The position is told without a move. -/
@[simp] theorem run_position (start : Cursor) :
    position.run start = .ok start.position start := rfl

/-- At the end of the blob one byte is lacking. -/
@[simp] theorem run_peek_nil (place : Nat) :
    peek.run ⟨place, []⟩ = .error (.truncated place 1 0) ⟨place, []⟩ := rfl

/-- The next byte is told and stays ahead. -/
@[simp] theorem run_peek_cons (place : Nat) (next : UInt8) (ahead : List UInt8) :
    peek.run ⟨place, next :: ahead⟩ = .ok next ⟨place, next :: ahead⟩ := rfl

/-- At the end of the blob there is no byte to take. -/
@[simp] theorem run_byte_nil (place : Nat) :
    byte.run ⟨place, []⟩ = .error (.truncated place 1 0) ⟨place, []⟩ := rfl

/-- The next byte is taken. -/
@[simp] theorem run_byte_cons (place : Nat) (next : UInt8) (ahead : List UInt8) :
    byte.run ⟨place, next :: ahead⟩ = .ok next ⟨place + 1, ahead⟩ := rfl

/-- Enough bytes are ahead, and none is taken. -/
theorem run_ensure_of_le {place count : Nat} {ahead : List UInt8} (h : count ≤ ahead.length) :
    (ensure count).run ⟨place, ahead⟩ = .ok () ⟨place, ahead⟩ := by
  have : ¬ (ahead.take count).length < count := by rw [List.length_take]; omega
  simp only [ensure, this, if_false]

/-- Too few bytes are ahead, and the error tells how many. -/
theorem run_ensure_of_lt {place count : Nat} {ahead : List UInt8} (h : ahead.length < count) :
    (ensure count).run ⟨place, ahead⟩ =
      .error (.truncated place count ahead.length) ⟨place, ahead⟩ := by
  have : (ahead.take count).length < count := by rw [List.length_take]; omega
  simp only [ensure, this, if_true, Cursor.remaining]

/-- Bytes that are ahead are read whole. -/
theorem run_bytes_append (place : Nat) (taken ahead : List UInt8) :
    (bytes taken.length).run ⟨place, taken ++ ahead⟩ =
      .ok taken ⟨place + taken.length, ahead⟩ := by
  have h : taken.length ≤ (taken ++ ahead).length := by simp
  simp [bytes, run_ensure_of_le h]

/-- As many bytes are taken as were asked for. -/
theorem run_bytes_of_le {place count : Nat} {ahead : List UInt8} (h : count ≤ ahead.length) :
    (bytes count).run ⟨place, ahead⟩ =
      .ok (ahead.take count) ⟨place + count, ahead.drop count⟩ := by
  simp [bytes, run_ensure_of_le h]

/-- Too few bytes are not read at all. -/
theorem run_bytes_of_lt {place count : Nat} {ahead : List UInt8} (h : ahead.length < count) :
    (bytes count).run ⟨place, ahead⟩ =
      .error (.truncated place count ahead.length) ⟨place, ahead⟩ := by
  simp [bytes, run_ensure_of_lt h]

section

variable {start stop : Cursor} {error : Error}

/-- A look fails for want of one byte, and stays. -/
theorem of_run_peek_eq_error (h : peek.run start = .error error stop) :
    error = .truncated start.position 1 0 ∧ stop = start := by
  obtain ⟨place, ahead⟩ := start
  cases ahead with
  | nil =>
    obtain ⟨rfl, rfl⟩ := Outcome.error.inj h
    exact ⟨rfl, rfl⟩
  | cons next ahead => cases h

/-- To take a byte fails in the same way. -/
theorem of_run_byte_eq_error (h : byte.run start = .error error stop) :
    error = .truncated start.position 1 0 ∧ stop = start := by
  obtain ⟨place, ahead⟩ := start
  cases ahead with
  | nil =>
    obtain ⟨rfl, rfl⟩ := Outcome.error.inj h
    exact ⟨rfl, rfl⟩
  | cons next ahead => cases h

/-- To take bytes fails for want of some of them, takes none of the others and tells how many there
are. -/
theorem of_run_bytes_eq_error {count : Nat} (h : (bytes count).run start = .error error stop) :
    error = .truncated start.position count start.remaining ∧ stop = start ∧
      start.remaining < count := by
  obtain ⟨place, ahead⟩ := start
  by_cases hcount : count ≤ ahead.length
  · rw [run_bytes_of_le hcount] at h
    cases h
  · have hshort : ahead.length < count := Nat.lt_of_not_le hcount
    rw [run_bytes_of_lt hshort] at h
    obtain ⟨rfl, rfl⟩ := Outcome.error.inj h
    exact ⟨rfl, rfl, hshort⟩

end

/-! ## Combinations -/

/-- A value with the place of its encoding and the first byte there. -/
structure Located (α : Type) where
  /-- The number of bytes before the encoding. -/
  offset : Nat
  /-- The first byte of the encoding. -/
  lead : UInt8
  /-- The value. -/
  value : α

/-- Read a value, which takes at least one byte, and note where it began. -/
def located (decoder : Decoder α) : Decoder (Located α) := do
  let offset ← position
  let lead ← peek
  let value ← decoder
  return { offset, lead, value }

/-- A transaction succeeds with its decoder. -/
theorem run_transaction_eq_ok_iff {decoder : Decoder α} {start stop : Cursor} {value : α} :
    decoder.transaction.run start = .ok value stop ↔ decoder.run start = .ok value stop := by
  unfold transaction
  cases hrun : decoder.run start <;> simp only [hrun, reduceCtorEq]

/-- A transaction that fails has not moved. -/
theorem run_transaction_of_error {decoder : Decoder α} {start stop : Cursor} {error : Error}
    (h : decoder.run start = .error error stop) :
    decoder.transaction.run start = .error error start := by
  simp only [transaction, h]

/-- A transaction fails exactly where its decoder does, and is then at its start. -/
theorem run_transaction_eq_error_iff {decoder : Decoder α} {start stop : Cursor} {error : Error} :
    decoder.transaction.run start = .error error stop ↔
      stop = start ∧ ∃ place, decoder.run start = .error error place := by
  unfold transaction
  constructor
  · intro h
    cases hrun : decoder.run start with
    | ok value place =>
      simp only [hrun, reduceCtorEq] at h
    | error cause place =>
      simp only [hrun, Outcome.error.injEq] at h
      obtain ⟨rfl, rfl⟩ := h
      exact ⟨rfl, place, rfl⟩
  · rintro ⟨rfl, place, hrun⟩
    simp only [hrun]

/-- Run decoders one after the other, each from where the one before it stopped, and go on after
failures. -/
def runEach : List (Decoder α) → Cursor → List (Outcome α)
  | [], _ => []
  | decoder :: decoders, start =>
    let outcome := decoder.run start
    outcome :: runEach decoders outcome.stop

end Decoder

end SignatureBlob
