import SignatureBlob.Proofs.Congruence
import SignatureBlob.Proofs.Correspondence

/-!
# Journals

A recorder is a decoder together with a journal of each of its runs. The journal notes each call of
the reader of types and each turn of a loop, with its start and its end, also where the run fails;
and it notes each list that was read, with its count, at the place behind the count and at the place
where the members begin.

A recorder is a reader, so it goes through the rules of the grammar as decoders do, and is told of
the turns and lists there. What it reads is what the decoder reads.

Main definitions: `Recorder` and `Recorder.subject`. Main statement: `Recorder.decoder_subject` (a
recorder of a subject reads the subject).
-/

namespace SignatureBlob

open Decoder

/-! ## Journals -/

/-- One call of the reader of types, or one turn of a loop. -/
structure Turn where
  /-- The place where it began. -/
  start : Cursor
  /-- How it ended, without the value. -/
  outcome : Outcome Unit

/-- A list that was read, as seen from a place in front of its members. -/
structure Tally where
  /-- The place. -/
  place : Cursor
  /-- The number of members that the blob claims. -/
  count : Nat
  /-- The number of members that were read. -/
  length : Nat

/-- What was noted while a decoder ran. -/
structure Journal where
  turns : List Turn := []
  tallies : List Tally := []

namespace Journal

instance : Append Journal where
  append first second := ⟨first.turns ++ second.turns, first.tallies ++ second.tallies⟩

/-- The turns of one journal behind another stand one behind the other. -/
@[simp] theorem turns_append (first second : Journal) :
    (first ++ second).turns = first.turns ++ second.turns := rfl

end Journal

/-! ## Recorders -/

/-- A decoder and the journals of its runs. -/
structure Recorder (α : Type) where
  /-- What is read. -/
  decoder : Decoder α
  /-- What is noted when it is read at a cursor. -/
  journal : Cursor → Journal

namespace Recorder

variable {α β : Type}

/-- Note the run as a turn. -/
def turn (recorder : Recorder α) : Recorder α where
  decoder := recorder.decoder
  journal start :=
    ⟨[⟨start, (recorder.decoder.run start).map fun _ => ()⟩], []⟩ ++ recorder.journal start

/-- Note how many of `count` members were read, if they were. -/
def tally (recorder : Recorder α) (count : Nat) (length : α → Nat) : Recorder α where
  decoder := recorder.decoder
  journal start :=
    match recorder.decoder.run start with
    | .ok value _ => recorder.journal start ++ ⟨[], [⟨start, count, length value⟩]⟩
    | .error _ _ => recorder.journal start

instance : Reader Recorder where
  pure value := ⟨pure value, fun _ => {}⟩
  bind first next := {
    decoder := first.decoder >>= fun value => (next value).decoder
    journal := fun start =>
      match first.decoder.run start with
      | .ok value stop => first.journal start ++ (next value).journal stop
      | .error _ _ => first.journal start }
  monadLift decoder := ⟨decoder, fun _ => {}⟩
  turn := turn
  tally := tally

/-- A sequence of recorders reads what the sequence of their decoders reads. -/
@[simp] theorem decoder_bind (first : Recorder α) (next : α → Recorder β) :
    (first >>= next).decoder = first.decoder >>= fun value => (next value).decoder := rfl

/-- A decoder that is taken as a recorder reads what it read before. -/
@[simp] theorem decoder_lift (decoder : Decoder α) :
    (liftM decoder : Recorder α).decoder = decoder := rfl

/-- If the first of two recorders succeeds, the notes of the second follow. -/
theorem journal_bind_ok {first : Recorder α} {start stop : Cursor} {value : α}
    (h : first.decoder.run start = .ok value stop) (next : α → Recorder β) :
    (first >>= next).journal start = first.journal start ++ (next value).journal stop := by
  simp only [Bind.bind, h]

/-- If the first of two recorders fails, nothing is noted of the second. -/
theorem journal_bind_error {first : Recorder α} {start stop : Cursor} {error : Error}
    (h : first.decoder.run start = .error error stop) (next : α → Recorder β) :
    (first >>= next).journal start = first.journal start := by
  simp only [Bind.bind, h]

/-- A list that was read is noted behind all that was noted on the way. -/
theorem journal_tally_ok {recorder : Recorder α} {start stop : Cursor} {value : α} {count : Nat}
    {length : α → Nat} (h : recorder.decoder.run start = .ok value stop) :
    (recorder.tally count length).journal start =
      recorder.journal start ++ ⟨[], [⟨start, count, length value⟩]⟩ := by
  simp only [tally, h]

/-- Of a list that could not be read there is no tally. -/
theorem journal_tally_error {recorder : Recorder α} {start stop : Cursor} {error : Error}
    {count : Nat} {length : α → Nat} (h : recorder.decoder.run start = .error error stop) :
    (recorder.tally count length).journal start = recorder.journal start := by
  simp only [tally, h]

/-! ## Types and subjects -/

/-- A call of the reader of types, with at most `levels` types nested in one another. -/
def type (limit : Nat) : (levels : Nat) → Recorder TypeSig
  | 0 => turn (liftM (TypeSig.decodeWithin limit 0))
  | levels + 1 => turn (Reader.typeWith (type limit levels))

/-- A subject of a kind. -/
def subject (options : DecodeOptions) : SubjectKind → Recorder Subject
  | .signature kind => do
    let whole ← Reader.signature (type options.limit options.limit) kind
    Decoder.finish options
    return .signature whole
  | .type => return .type (← type options.limit options.limit)

/-! ## What is read -/

/-- What a recorder reads is what the decoder reads that goes through the same rules. -/
theorem correspondence_decoder :
    Reader.Correspondence fun α (recorder : Recorder α) (decoder : Decoder α) =>
      recorder.decoder = decoder where
  pure _ := rfl
  bind hfirst hnext := by
    subst hfirst
    exact bind_congr hnext
  lift _ := rfl
  turn h := h
  tally _ _ h := h

/-- A call reads a type. -/
@[simp] theorem decoder_type (limit levels : Nat) :
    (type limit levels).decoder = TypeSig.decodeWithin limit levels := by
  induction levels with
  | zero => rfl
  | succ levels ih => exact correspondence_decoder.typeWith ih

/-- What the recorder reads is the subject, and how it ends is how the reader ends. -/
theorem decoder_subject (options : DecodeOptions) (kind : SubjectKind) :
    (subject options kind).decoder = Subject.decode options kind := by
  have htype := decoder_type options.limit options.limit
  cases kind with
  | type => exact correspondence_decoder.bind htype fun _ => correspondence_decoder.pure _
  | signature kind =>
    simp only [Subject.decode, Signature.decode, Decoder.whole, bind_assoc, pure_bind]
    exact correspondence_decoder.bind (correspondence_decoder.signature htype kind) fun _ =>
      correspondence_decoder.bind (correspondence_decoder.lift _) fun _ =>
        correspondence_decoder.pure _

end Recorder

end SignatureBlob
