import SignatureBlob.Parser
import SignatureBlob.Proofs.Correspondence
import SignatureBlob.Proofs.Progress

/-!
# Sessions

A parser carries no history but its place. Two things are shown for this. A decoder goes forward
over the bytes ahead of it, and where these stand in the blob shows in the offsets of errors alone.
And each rule of a parser leaves the count of open types as it found it, so with some types open it
does what the decoder does that has the other levels left.

Main statements: `Parse.follows_subject` (a parser does what the decoder does) and
`Parser.answers_eq_answersOfRest` (each call of a session is answered as by a new parser).
-/

namespace SignatureBlob

open Decoder

/-! ## Places in a blob and in the rest of it -/

/-- A place in the rest of a blob behind `count` bytes, as a place in the blob. -/
def Cursor.shift (cursor : Cursor) (count : Nat) : Cursor :=
  ⟨cursor.position + count, cursor.ahead⟩

/-- An error in the rest of a blob behind `count` bytes, as an error in the blob. -/
def Error.shift (count : Nat) : Error → Error
  | truncated offset needed remaining => .truncated (offset + count) needed remaining
  | invalidEncoding offset observed defect => .invalidEncoding (offset + count) observed defect
  | unknownElementType offset observed => .unknownElementType (offset + count) observed
  | maxDepthExceeded limit offset => .maxDepthExceeded limit (offset + count)

/-- The same for the outcome of a decoder. -/
def Outcome.shift {α : Type} (count : Nat) : Outcome α → Outcome α
  | ok value stop => .ok value (stop.shift count)
  | error cause stop => .error (cause.shift count) (stop.shift count)

namespace Decoder

variable {α β : Type}

/-! ## Decoders that do not know where they are -/

/-- A decoder to which the place in the blob matters in errors alone. -/
def Steady (decoder : Decoder α) : Prop :=
  ∀ start count, decoder.run (start.shift count) = (decoder.run start).shift count

/-- A sequence is steady if its parts are. -/
theorem steady_bind {first : Decoder α} {next : α → Decoder β} (hfirst : first.Steady)
    (hnext : ∀ value, (next value).Steady) : (first >>= next).Steady := by
  intro start count
  have hshift := hfirst start count
  cases hrun : first.run start with
  | ok value stop =>
    rw [hrun] at hshift
    rw [run_bind_ok hrun, run_bind_ok hshift]
    exact hnext value stop count
  | error error stop =>
    rw [hrun] at hshift
    rw [run_bind_error hrun, run_bind_error hshift]
    rfl

/-- To take bytes does not depend on the place. -/
theorem steady_bytes (size : Nat) : (bytes size).Steady := by
  intro start count
  obtain ⟨place, ahead⟩ := start
  unfold Cursor.shift
  by_cases hsize : size ≤ ahead.length
  · rw [run_bytes_of_le hsize, run_bytes_of_le hsize]
    simp only [Outcome.shift, Cursor.shift, Nat.add_right_comm]
  · have hshort : ahead.length < size := Nat.lt_of_not_le hsize
    rw [run_bytes_of_lt hshort, run_bytes_of_lt hshort]
    rfl

/-- What a verdict is given of the place shows in the error that it raises. -/
theorem Judged.steady {lead : UInt8} {spelled : List UInt8 → Prop} {next next' : Nat → Decoder α}
    (h : Judged (fun _ decoder _ => decoder.Steady) lead spelled next next') (offset : Nat)
    (start : Cursor) (count : Nat) :
    (next (offset + count)).run (start.shift count) = ((next offset).run start).shift count := by
  cases h with
  | accept h => exact h start count
  | refuse blames => cases blames <;> rfl

/-- To go back at an error goes back to the same place, shifted. -/
theorem steady_transaction {decoder : Decoder α} (h : decoder.Steady) :
    decoder.transaction.Steady := by
  intro start count
  have hshift := h start count
  cases hrun : decoder.run start with
  | ok value stop =>
    rw [hrun] at hshift
    rw [run_transaction_eq_ok_iff.2 hrun]
    exact run_transaction_eq_ok_iff.2 hshift
  | error error stop =>
    rw [hrun] at hshift
    rw [run_transaction_of_error hrun]
    exact run_transaction_of_error hshift

/-- A look at the next byte, which shows the place to what goes on. -/
theorem steady_look {next : Nat → UInt8 → Decoder α}
    (h : ∀ lead offset start count, (next (offset + count) lead).run (start.shift count) =
      ((next offset lead).run start).shift count) :
    (position >>= fun offset => peek >>= next offset).Steady := by
  intro start count
  obtain ⟨place, ahead⟩ := start
  rw [run_bind_ok (run_position _), run_bind_ok (run_position _)]
  cases ahead with
  | nil => rfl
  | cons lead ahead => exact h lead place ⟨place, lead :: ahead⟩ count

/-- Steady decoders stay steady in all the ways in which readers are put together. -/
theorem congruence_steady : Congruence fun _ decoder _ => decoder.Steady where
  pure _ _ _ := rfl
  bind := steady_bind
  bytes := steady_bytes
  look _ h := steady_look fun lead => (h lead).steady
  byte := by
    intro α next next' h start count
    obtain ⟨place, ahead⟩ := start
    rw [run_bind_ok (run_position _), run_bind_ok (run_position _)]
    cases ahead with
    | nil => rfl
    | cons lead ahead =>
      have hshift := (h lead).steady place ⟨place + 1, ahead⟩ count
      rwa [Cursor.shift, Nat.add_right_comm] at hshift
  located := by
    intro α β decoder grammar next next' _ _ hsteady h
    rw [located_bind_eq]
    refine steady_look fun lead offset start count => ?_
    have hshift := hsteady start count
    cases hrun : decoder.run start with
    | ok value stop =>
      rw [hrun] at hshift
      rw [run_bind_ok hrun, run_bind_ok hshift]
      exact (h lead value).steady offset stop count
    | error error stop =>
      rw [hrun] at hshift
      rw [run_bind_error hrun, run_bind_error hshift]
      rfl
  transaction := steady_transaction

/-- The place in the blob matters to no reader but in its errors. -/
theorem steady_subject (options : DecodeOptions) (kind : SubjectKind) :
    (Subject.decode options kind).Steady := by
  have hfinish : (finish options).Steady := by
    intro start count
    obtain ⟨place, ahead⟩ := start
    cases ahead with
    | nil => rfl
    | cons next ahead =>
      unfold finish
      cases options.strict <;> rfl
  have hguard : (TypeSig.decodeWithin options.limit 0).Steady := fun _ _ => rfl
  exact congruence_steady.compatible.subject (fun _ => hguard) hfinish
    (Nat.le_refl options.limit) kind

end Decoder

/-! ## The count of open types -/

namespace Parse

variable {α β : Type} {nesting : Nat}

/-- With `nesting` types open, a parser does what the decoder does and leaves them open. -/
def Follows (nesting : Nat) (parse : Parse α) (decoder : Decoder α) : Prop :=
  ∀ cursor, parse ⟨cursor, nesting⟩ =
    ((decoder.run cursor).result, ⟨(decoder.run cursor).stop, nesting⟩)

/-- A parser that lets a decoder run does what it does. -/
theorem follows_read (decoder : Decoder α) : Follows nesting (read decoder) decoder :=
  fun _ => rfl

/-- To return a value leaves the open types as they are. -/
theorem follows_pure (value : α) : Follows nesting (pure value) (pure value) := fun _ => rfl

/-- A sequence follows a sequence if its parts follow the parts. -/
theorem follows_bind {parse : Parse α} {decoder : Decoder α} {next : α → Parse β}
    {next' : α → Decoder β} (h : Follows nesting parse decoder)
    (hnext : ∀ value, Follows nesting (next value) (next' value)) :
    Follows nesting (parse >>= next) (decoder >>= next') := by
  intro cursor
  have hparse := h cursor
  cases hrun : decoder.run cursor with
  | ok value stop =>
    rw [hrun] at hparse
    rw [run_bind_ok hparse, Decoder.run_bind_ok hrun]
    exact hnext value stop
  | error error stop =>
    rw [hrun] at hparse
    rw [run_bind_error hparse, Decoder.run_bind_error hrun]
    rfl

/-- A type is closed however it ends, so the rule inside finds one more open than before. -/
theorem follows_nested {limit : Nat} {rule : Parse α} {decoder : Decoder α}
    (h : Follows (nesting + 1) rule decoder) (hlimit : nesting < limit) :
    Follows nesting (nested limit rule) decoder := by
  intro cursor
  rw [nested_of_lt hlimit (h cursor), Nat.add_sub_cancel]

/-- A parser with `nesting` types open goes through each rule as the decoder does. -/
theorem correspondence_follows (nesting : Nat) :
    Reader.Correspondence fun α (parse : Parse α) (decoder : Decoder α) =>
      Follows nesting parse decoder where
  pure := follows_pure
  bind := follows_bind
  lift := follows_read
  turn h := h
  tally _ _ h := h

/-- The types that are open and the levels that are left make up the limit. -/
theorem follows_type {limit levels calls : Nat} (hlevels : nesting + levels = limit)
    (hcalls : levels < calls) :
    Follows nesting (type limit calls) (TypeSig.decodeWithin limit levels) := by
  induction calls generalizing nesting levels with
  | zero => exact absurd hcalls (Nat.not_lt_zero levels)
  | succ calls ih =>
    cases levels with
    | zero =>
      intro cursor
      have hfull : limit ≤ nesting := Nat.le_of_eq hlevels.symm
      exact nested_of_le hfull _
    | succ levels =>
      have hinner : Follows (nesting + 1) (type limit calls) (TypeSig.decodeWithin limit levels) :=
        ih (by omega) (by omega)
      exact follows_nested ((correspondence_follows _).typeWith hinner) (by omega)

/-- With no type open a parser does what the decoder does, and leaves none open. -/
theorem follows_subject (options : DecodeOptions) (kind : SubjectKind) :
    Follows 0 (subject options kind) (Subject.decode options kind) := by
  have htype : Follows 0 (type options.limit (options.limit + 1)) (TypeSig.decode options) :=
    follows_type (Nat.zero_add _) (Nat.lt_succ_self _)
  cases kind with
  | type => exact follows_bind htype fun _ => follows_pure _
  | signature kind =>
    simp only [Subject.decode, Signature.decode, Decoder.whole, bind_assoc, pure_bind]
    exact follows_bind ((correspondence_follows 0).signature htype kind) fun _ =>
      follows_bind (follows_read _) fun _ => follows_pure _

/-- Where a parser without open types stands shows in the offset of its error alone. -/
theorem subject_shift (options : DecodeOptions) (kind : SubjectKind) (cursor : Cursor)
    (count : Nat) {result : Except Error Subject} {after : Parser}
    (h : subject options kind ⟨cursor, 0⟩ = (result, after)) :
    subject options kind ⟨cursor.shift count, 0⟩ =
      (result.mapError (Error.shift count), ⟨after.cursor.shift count, 0⟩) := by
  have hcursor := follows_subject options kind cursor
  rw [h] at hcursor
  obtain ⟨rfl, rfl⟩ := Prod.mk.inj hcursor
  rw [follows_subject, steady_subject]
  cases (Subject.decode options kind).run cursor <;> rfl

end Parse

/-! ## Sessions -/

/-- A place in the blob. -/
def Cursor.IsIn (blob : List UInt8) (cursor : Cursor) : Prop :=
  cursor.position ≤ blob.length ∧ cursor.ahead = blob.drop cursor.position

/-- Whoever goes over bytes of a blob stays in it. -/
theorem Cursor.IsIn.passes {blob bytes : List UInt8} {start stop : Cursor} (h : start.IsIn blob)
    (hpasses : start.Passes bytes stop) : stop.IsIn blob ∧ start.position ≤ stop.position := by
  have hstart : (Cursor.start blob).Passes (blob.take start.position) start :=
    Cursor.passes_start_iff.2 ⟨h.1, rfl, h.2⟩
  obtain ⟨hposition, -, hahead⟩ := Cursor.passes_start_iff.1 (hstart.trans hpasses)
  exact ⟨⟨hposition, hahead⟩, hpasses.2 ▸ Nat.le_add_right _ _⟩

namespace Parser

/-- The answers of new parsers, each asked about the rest of the blob that the one before it left,
as answers about the blob. -/
def answersOfRest (options : DecodeOptions) (blob : List UInt8) :
    List SubjectKind → (place : Nat) → List (Except Error Subject × Parser)
  | [], _ => []
  | kind :: kinds, place =>
    let (result, after) := Parse.subject options kind (.start (blob.drop place))
    (result.mapError (Error.shift place), ⟨after.cursor.shift place, after.nesting⟩) ::
      answersOfRest options blob kinds (place + after.cursor.position)

/-- One call: the answer is that of a new parser of the rest of the blob. No type is left open, and
the parser goes forward within the blob. -/
theorem exists_subject_eq (options : DecodeOptions) (kind : SubjectKind) {blob : List UInt8}
    {cursor : Cursor} (h : cursor.IsIn blob) :
    ∃ result stop,
      Parse.subject options kind (.start (blob.drop cursor.position)) = (result, ⟨stop, 0⟩) ∧
      Parse.subject options kind ⟨cursor, 0⟩ =
        (result.mapError (Error.shift cursor.position), ⟨stop.shift cursor.position, 0⟩) ∧
      (stop.shift cursor.position).IsIn blob ∧
      cursor.position ≤ (stop.shift cursor.position).position := by
  have hrest := Parse.follows_subject options kind (.start (blob.drop cursor.position))
  have hcall := Parse.subject_shift options kind _ cursor.position hrest
  have hcursor : (Cursor.start (blob.drop cursor.position)).shift cursor.position = cursor := by
    simp [Cursor.start, Cursor.shift, ← h.2]
  rw [hcursor] at hcall
  obtain ⟨bytes, hpasses⟩ := advances_subject options kind cursor
  -- where the call stops is told by the decoder too
  have hstop := (Parse.follows_subject options kind cursor).symm.trans hcall
  rw [(Parser.mk.inj (Prod.mk.inj hstop).2).1] at hpasses
  exact ⟨_, _, hrest, hcall, h.passes hpasses⟩

/-- Every answer of a session is that of a decoder at some place of the blob. -/
theorem exists_run_of_mem_answers {options : DecodeOptions} {kinds : List SubjectKind}
    {blob : List UInt8} {cursor : Cursor} (h : cursor.IsIn blob)
    {answer : Except Error Subject × Parser}
    (hanswer : answer ∈ answers options kinds ⟨cursor, 0⟩) :
    ∃ kind ∈ kinds, ∃ place : Cursor, place.IsIn blob ∧
      answer.1 = ((Subject.decode options kind).run place).result := by
  induction kinds generalizing cursor with
  | nil => cases hanswer
  | cons kind kinds ih =>
    have hcall := Parse.follows_subject options kind cursor
    obtain ⟨bytes, hpasses⟩ := advances_subject options kind cursor
    rw [answers, hcall, List.mem_cons] at hanswer
    rcases hanswer with rfl | hrest
    · exact ⟨kind, List.mem_cons_self, cursor, h, rfl⟩
    · obtain ⟨other, hother, place, hplace, hresult⟩ := ih (h.passes hpasses).1 hrest
      exact ⟨other, List.mem_cons_of_mem kind hother, place, hplace, hresult⟩

/-- The calls from a place of the blob on, without open types. -/
theorem answers_spec (options : DecodeOptions) (kinds : List SubjectKind) {blob : List UInt8}
    {cursor : Cursor} (h : cursor.IsIn blob) :
    answers options kinds ⟨cursor, 0⟩ = answersOfRest options blob kinds cursor.position ∧
    (∀ answer ∈ answers options kinds ⟨cursor, 0⟩, answer.2.nesting = 0 ∧
      answer.2.cursor.IsIn blob ∧ cursor.position ≤ answer.2.cursor.position) ∧
    ((answers options kinds ⟨cursor, 0⟩).map (·.2.cursor.position)).Pairwise (· ≤ ·) := by
  induction kinds generalizing cursor with
  | nil => exact ⟨rfl, nofun, .nil⟩
  | cons kind kinds ih =>
    obtain ⟨result, stop, hrest, hcall, hin, hle⟩ := exists_subject_eq options kind h
    obtain ⟨hsame, hplaces, hsorted⟩ := ih hin
    have hnext : (stop.shift cursor.position).position = cursor.position + stop.position :=
      Nat.add_comm _ _
    simp only [answers, answersOfRest, hcall, hrest, List.map_cons, List.pairwise_cons,
      List.forall_mem_cons, List.forall_mem_map, ← hnext, ← hsame]
    refine ⟨trivial, ⟨⟨trivial, hin, hle⟩, fun answer hanswer => ?_⟩, fun answer hanswer => ?_,
      hsorted⟩
    · obtain ⟨hclosed, hplace, hforward⟩ := hplaces answer hanswer
      exact ⟨hclosed, hplace, Nat.le_trans hle hforward⟩
    · exact (hplaces answer hanswer).2.2

/-- However often a parser is called, and whatever failed before, each call is answered as by a new
parser of the bytes that are left, but for the place that errors tell. No type is left open, and the
parser never goes back or out of the blob. -/
theorem answers_eq_answersOfRest (options : DecodeOptions) (kinds : List SubjectKind)
    (blob : List UInt8) :
    answers options kinds (.start blob) = answersOfRest options blob kinds 0 ∧
    (∀ answer ∈ answers options kinds (.start blob), answer.2.nesting = 0 ∧
      answer.2.cursor.position ≤ blob.length ∧
      answer.2.cursor.ahead = blob.drop answer.2.cursor.position) ∧
    ((answers options kinds (.start blob)).map (·.2.cursor.position)).Pairwise (· ≤ ·) := by
  have hstart : (Cursor.start blob).IsIn blob := ⟨Nat.zero_le _, rfl⟩
  obtain ⟨hsame, hplaces, hsorted⟩ := answers_spec options kinds hstart
  refine ⟨hsame, fun answer hanswer => ?_, hsorted⟩
  obtain ⟨hclosed, hin, -⟩ := hplaces answer hanswer
  exact ⟨hclosed, hin⟩

end Parser

end SignatureBlob
