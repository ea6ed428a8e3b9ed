import SignatureBlob.Proofs.Journal
import SignatureBlob.Proofs.Outlay
import SignatureBlob.Proofs.Progress

/-!
# Frugality

Whatever numbers a blob claims, reading it is paid for by its bytes. Each call of the reader of
types and each turn of a loop fails or goes over a byte, so that there are at most two for each byte
and two more at the end; and no list is longer than what was left of the blob when its count was
read. What is read takes a byte for each type at all depths, for each size and for each lower bound.

A byte may be spent twice: by the turn of the loop that reads a type and by the call within. So a
recorder has a slack, which tells how many more turns may be noted around it.

Main statements: `Recorder.frugal_subject` and `Subject.frugal_decode`.
-/

namespace SignatureBlob

open Decoder

/-! ## Sound journals -/

/-- The turn failed or went over a byte. -/
def Turn.Progresses (turn : Turn) : Prop :=
  ∀ stop, turn.outcome = .ok () stop → turn.start.position < stop.position

/-- The list has as many members as the blob claims, and no more than bytes were left. -/
structure Tally.Fits (tally : Tally) : Prop where
  length_eq : tally.length = tally.count
  length_le : tally.length ≤ tally.place.remaining

/-- All turns go on, and all lists fit. -/
structure Journal.Sound (journal : Journal) : Prop where
  turns : ∀ turn ∈ journal.turns, turn.Progresses
  tallies : ∀ tally ∈ journal.tallies, tally.Fits

namespace Journal

/-- There is nothing wrong with an empty journal. -/
theorem sound_empty : Sound {} := ⟨nofun, nofun⟩

/-- Sound journals one behind the other are sound. -/
theorem Sound.append {first second : Journal} (hfirst : first.Sound) (hsecond : second.Sound) :
    (first ++ second).Sound where
  turns := List.forall_mem_append.2 ⟨hfirst.turns, hsecond.turns⟩
  tallies := List.forall_mem_append.2 ⟨hfirst.tallies, hsecond.tallies⟩

end Journal

/-! ## Frugal recorders -/

/-- The turns that a failure may leave unpaid. -/
def Outcome.debt {α : Type} : Outcome α → Nat
  | .ok _ _ => 0
  | .error _ _ => 2

/-- A failure leaves two turns unpaid at most. -/
theorem Outcome.debt_le {α : Type} (outcome : Outcome α) : outcome.debt ≤ 2 := by
  cases outcome <;> simp [debt]

namespace Decoder

variable {α : Type} {decoder : Decoder α}

/-- Who goes forward does not go back. -/
theorem Advances.position_le (h : decoder.Advances) (start : Cursor) :
    start.position ≤ (decoder.run start).stop.position := by
  obtain ⟨bytes, -, hposition⟩ := h start
  omega

/-- A byte is ahead of the start or of the end for each that is not behind them. -/
theorem Advances.remaining_eq (h : decoder.Advances) (start : Cursor) :
    start.position + start.remaining =
      (decoder.run start).stop.position + (decoder.run start).stop.remaining := by
  obtain ⟨bytes, hahead, hposition⟩ := h start
  rw [hposition, Cursor.remaining, hahead, List.length_append, Cursor.remaining]
  omega

/-- A value that is given back does not move. -/
theorem advances_pure (value : α) : (pure value : Decoder α).Advances :=
  advances_of_stop_eq fun _ => rfl

/-- To ask for the place does not move. -/
theorem advances_position : position.Advances := advances_of_stop_eq fun _ => rfl

/-- A sequence whose first part moves does. -/
theorem moves_bind_of_advances {β : Type} {next : α → Decoder β} (h : decoder.Moves)
    (hnext : ∀ value, (next value).Advances) : (decoder >>= next).Moves := by
  intro start value stop hrun
  obtain ⟨middle, place, hmiddle, hvalue⟩ := run_bind_eq_ok_iff.1 hrun
  have hlt := h _ _ _ hmiddle
  have hle := (hnext middle).position_le place
  rw [hvalue, Outcome.stop] at hle
  omega

/-- To take a byte is to move. -/
theorem moves_byte : byte.Moves :=
  recognizes_byte.moves fun _ => List.cons_ne_nil _ _ ∘ Eq.symm

/-- A signed integer takes a byte at least. -/
theorem moves_decodeSigned : CompressedInt.decodeSigned.Moves :=
  CompressedInt.recognizes_decodeSigned.moves fun _ h => h.ne_nil rfl

end Decoder

namespace Recorder

variable {α β : Type}

/-- A list of as many members as counted is read, and a byte at least is gone over for each. -/
def Counts (recorder : Recorder α) (count : Nat) (length : α → Nat) : Prop :=
  ∀ start value stop, recorder.decoder.run start = .ok value stop →
    length value = count ∧ start.position + count ≤ stop.position

/-- What is read in front of a list and given back with it does not matter. -/
theorem Counts.behind {γ : Type} {first : Recorder α} {rest : α → Recorder β} {f : α → β → γ}
    {count : Nat} {length : β → Nat} {length' : γ → Nat} (hfirst : first.decoder.Advances)
    (hrest : ∀ value, (rest value).Counts count length)
    (hlength : ∀ value found, length' (f value found) = length found) :
    (first >>= fun value => rest value >>= fun found => pure (f value found)).Counts count
      length' := by
  intro start result stop hrun
  obtain ⟨value, place, hvalue, hbehind⟩ := run_bind_eq_ok_iff.1 hrun
  obtain ⟨found, place', hfound, hpure⟩ := run_bind_eq_ok_iff.1 hbehind
  obtain ⟨rfl, rfl⟩ := Outcome.ok.inj hpure
  obtain ⟨hcount, hle⟩ := hrest value place found _ hfound
  have hplace := hfirst.position_le start
  rw [hvalue, Outcome.stop] at hplace
  exact ⟨(hlength value found).trans hcount, Nat.le_trans (Nat.add_le_add_right hplace _) hle⟩

/-- Two turns are paid for by each byte, and `slack` turns more. -/
structure Frugal (slack : Nat) (recorder : Recorder α) : Prop where
  advances : recorder.decoder.Advances
  sound : ∀ start, (recorder.journal start).Sound
  paid : ∀ start, (recorder.journal start).turns.length + slack + 2 * start.position ≤
    2 * (recorder.decoder.run start).stop.position + (recorder.decoder.run start).debt

namespace Frugal

variable {slack : Nat} {recorder : Recorder α}

/-- Less slack may be claimed than is left. -/
theorem mono {fewer : Nat} (h : recorder.Frugal slack) (hle : fewer ≤ slack) :
    recorder.Frugal fewer where
  advances := h.advances
  sound := h.sound
  paid start := by
    have hpaid := h.paid start
    omega

/-- Slack is left only where a byte was gone over. -/
theorem moves (h : recorder.Frugal (slack + 1)) : recorder.decoder.Moves := by
  intro start value stop hrun
  have hpaid := h.paid start
  rw [hrun] at hpaid
  simp only [Outcome.stop, Outcome.debt] at hpaid
  omega

/-- Of a sequence only the first part must leave slack. -/
theorem bind {first : Recorder α} {next : α → Recorder β} (hfirst : first.Frugal slack)
    (hnext : ∀ value, (next value).Frugal 0) : (first >>= next).Frugal slack where
  advances := advances_bind hfirst.advances fun value => (hnext value).advances
  sound start := by
    cases hrun : first.decoder.run start with
    | ok value stop =>
      rw [journal_bind_ok hrun]
      exact (hfirst.sound start).append ((hnext value).sound stop)
    | error error stop =>
      rw [journal_bind_error hrun]
      exact hfirst.sound start
  paid start := by
    have hpaid := hfirst.paid start
    rw [decoder_bind]
    cases hrun : first.decoder.run start with
    | ok value stop =>
      have hthen := (hnext value).paid stop
      rw [hrun] at hpaid
      rw [journal_bind_ok hrun, run_bind_ok hrun, Journal.turns_append, List.length_append]
      simp only [Outcome.stop, Outcome.debt] at hpaid
      omega
    | error error stop =>
      rw [hrun] at hpaid
      rw [journal_bind_error hrun, run_bind_error hrun]
      exact hpaid

/-- A call or a turn that is noted takes up one turn of the slack. -/
theorem turn (h : recorder.Frugal (slack + 1)) : recorder.turn.Frugal slack where
  advances := h.advances
  sound start := by
    have hturn : (Turn.mk start ((recorder.decoder.run start).map fun _ => ())).Progresses := by
      intro stop hstop
      cases hrun : recorder.decoder.run start with
      | ok value place =>
        rw [hrun] at hstop
        obtain ⟨-, rfl⟩ := Outcome.ok.inj hstop
        exact h.moves _ _ _ hrun
      | error error place =>
        rw [hrun] at hstop
        cases hstop
    exact .append ⟨List.forall_mem_singleton.2 hturn, nofun⟩ (h.sound start)
  paid start := by
    have hpaid := h.paid start
    simp only [Recorder.turn, Journal.turns_append, List.length_append, List.length_singleton]
    omega

/-- A list of as many members as counted, each of which takes a byte, fits. -/
theorem tally {count : Nat} {length : α → Nat} (h : recorder.Frugal slack)
    (hcounts : recorder.Counts count length) : (recorder.tally count length).Frugal slack where
  advances := h.advances
  sound start := by
    cases hrun : recorder.decoder.run start with
    | ok value stop =>
      obtain ⟨hlength, hcount⟩ := hcounts start value stop hrun
      have hremaining := h.advances.remaining_eq start
      rw [hrun] at hremaining
      rw [journal_tally_ok hrun]
      refine (h.sound start).append ⟨nofun, List.forall_mem_singleton.2 ⟨hlength, ?_⟩⟩
      show length value ≤ start.remaining
      simp only [Outcome.stop] at hremaining
      omega
    | error error stop =>
      rw [journal_tally_error hrun]
      exact h.sound start
  paid start := by
    have hturns : ((recorder.tally count length).journal start).turns =
        (recorder.journal start).turns := by
      cases hrun : recorder.decoder.run start with
      | ok value stop => rw [journal_tally_ok hrun, Journal.turns_append, List.append_nil]
      | error error stop => rw [journal_tally_error hrun]
    rw [hturns]
    exact h.paid start

end Frugal

/-- A value that is given back takes no turn and leaves no slack. -/
theorem frugal_pure (value : α) : (pure value : Recorder α).Frugal 0 where
  advances := advances_of_stop_eq fun _ => rfl
  sound _ := Journal.sound_empty
  paid start := by
    simp [Outcome.stop, Outcome.debt, pure]

/-- Nothing is noted of a decoder, so each byte that it goes over is left to others. -/
theorem frugal_lift {decoder : Decoder α} (h : decoder.Advances) :
    (liftM decoder : Recorder α).Frugal 0 where
  advances := h
  sound _ := Journal.sound_empty
  paid start := by
    have hle := h.position_le start
    show 0 + 0 + 2 * start.position ≤ 2 * (decoder.run start).stop.position + _
    omega

/-- The byte that a decoder goes over leaves slack for two turns. -/
theorem frugal_lift_of_moves {decoder : Decoder α} (h : decoder.Advances) (hmoves : decoder.Moves) :
    (liftM decoder : Recorder α).Frugal 2 where
  advances := h
  sound _ := Journal.sound_empty
  paid start := by
    have hle := h.position_le start
    rw [decoder_lift]
    cases hrun : decoder.run start with
    | ok value stop =>
      have hlt := hmoves _ _ _ hrun
      show 0 + 2 + 2 * start.position ≤ 2 * stop.position + 0
      omega
    | error error stop =>
      rw [hrun, Outcome.stop] at hle
      show 0 + 2 + 2 * start.position ≤ 2 * stop.position + 2
      omega

/-- A failure owes two turns, which others may use. -/
theorem frugal_fail {slack : Nat} (hslack : slack ≤ 2) (error : Error) :
    (liftM (fail error : Decoder α) : Recorder α).Frugal slack :=
  (frugal_lift_of_moves (advances_of_stop_eq fun _ => rfl) (moves_fail error)).mono hslack

/-- What is read behind a decoder may leave slack as well. -/
theorem frugal_lift_bind {slack : Nat} {decoder : Decoder α} {next : α → Recorder β}
    (hslack : slack ≤ 2) (h : decoder.Advances) (hnext : ∀ value, (next value).Frugal slack) :
    ((liftM decoder : Recorder α) >>= next).Frugal slack where
  advances := advances_bind h fun value => (hnext value).advances
  sound := (frugal_lift h).bind (fun value => (hnext value).mono (Nat.zero_le _)) |>.sound
  paid start := by
    have hle := h.position_le start
    rw [decoder_bind, decoder_lift]
    cases hrun : decoder.run start with
    | ok value stop =>
      have hfirst : (liftM decoder : Recorder α).decoder.run start = .ok value stop := hrun
      have hpaid := (hnext value).paid stop
      rw [hrun, Outcome.stop] at hle
      rw [journal_bind_ok hfirst, run_bind_ok hrun, Journal.turns_append, List.length_append]
      show 0 + _ + slack + _ ≤ _
      omega
    | error error stop =>
      have hfirst : (liftM decoder : Recorder α).decoder.run start = .error error stop := hrun
      rw [hrun, Outcome.stop] at hle
      rw [journal_bind_error hfirst, run_bind_error hrun]
      show 0 + slack + _ ≤ 2 * stop.position + 2
      omega

/-! ## Lists and shapes -/

section

variable {item : Recorder α}

/-- A list has as many members as were asked for, and each of them takes a byte. -/
theorem Frugal.counts_items (h : item.Frugal 1) (count : Nat) :
    (Reader.items item count).Counts count List.length := by
  induction count with
  | zero =>
    intro start values stop hrun
    obtain ⟨rfl, rfl⟩ := Outcome.ok.inj hrun
    exact ⟨rfl, Nat.le_refl _⟩
  | succ count ih =>
    intro start values stop hrun
    obtain ⟨value, place, hvalue, hrest⟩ := run_bind_eq_ok_iff.1 hrun
    obtain ⟨others, place', hothers, hpure⟩ := run_bind_eq_ok_iff.1 hrest
    obtain ⟨rfl, rfl⟩ := Outcome.ok.inj hpure
    obtain ⟨hlength, hle⟩ := ih place others _ hothers
    have hlt := h.moves _ _ _ hvalue
    refine ⟨congrArg Nat.succ hlength, ?_⟩
    omega

/-- Each member of a list pays for its turn. -/
theorem Frugal.items (h : item.Frugal 1) (count : Nat) : (Reader.items item count).Frugal 0 := by
  induction count with
  | zero => exact frugal_pure []
  | succ count ih => exact h.turn.bind fun value => ih.bind fun values => frugal_pure _

/-- A list has as many members as counted, and each of them pays for its turn. -/
theorem Frugal.list (h : item.Frugal 1) (count : Nat) : (Reader.list item count).Frugal 0 :=
  (h.items count).tally (h.counts_items count)

end

/-- A number in front of a list is paid for. -/
theorem frugal_located_bind {next : Located Nat → Recorder β}
    (hnext : ∀ count, (next count).Frugal 0) :
    ((liftM CompressedInt.decodeUnsigned.located : Recorder _) >>= next).Frugal 2 := by
  have hnumber := congruence_advances.compatible.decodeUnsigned
  have hadvances : CompressedInt.decodeUnsigned.located.Advances :=
    advances_bind advances_position fun _ => advances_bind advances_peek fun _ =>
      advances_bind hnumber fun _ => advances_pure _
  have hmoves : CompressedInt.decodeUnsigned.located.Moves :=
    moves_look fun _ _ => moves_bind_of_advances moves_decodeUnsigned fun _ => advances_pure _
  exact (frugal_lift_of_moves hadvances hmoves).bind hnext

/-- The count of a list pays for itself, and each member for its turn. -/
theorem frugal_bounded {item : Decoder α} (hadvances : item.Advances) (hmoves : item.Moves)
    (rank : Nat) (defect : Nat → Nat → Defect) :
    (Reader.bounded item rank defect : Recorder (List α)).Frugal 2 := by
  have hitem := (frugal_lift_of_moves hadvances hmoves).mono (Nat.le_succ 1)
  refine frugal_located_bind fun count => ?_
  split
  · exact frugal_fail (Nat.zero_le 2) _
  · exact hitem.list _

/-- The rank pays for itself, and sizes and lower bounds for their turns. -/
theorem frugal_shape : (Reader.shape : Recorder ArrayShape).Frugal 2 := by
  have law := congruence_advances.compatible
  refine frugal_located_bind fun rank => ?_
  split
  · exact frugal_fail (Nat.zero_le 2) _
  · have hsizes := (frugal_bounded law.decodeUnsigned moves_decodeUnsigned rank.value
      .sizesExceedRank).mono (Nat.zero_le 2)
    have hbounds := (frugal_bounded law.decodeSigned moves_decodeSigned rank.value
      .lowerBoundsExceedRank).mono (Nat.zero_le 2)
    exact hsizes.bind fun _ => hbounds.bind fun _ => frugal_pure _

/-! ## Methods -/

section

variable {inner : Recorder TypeSig} {convention : Convention}

/-- The mark pays for the turn that it takes up, as a parameter does. -/
theorem Frugal.markOrParam (h : inner.Frugal 1) :
    (Reader.markOrParam inner convention).Frugal 1 := by
  refine frugal_lift_bind (Nat.le_succ 1) advances_position fun offset => ?_
  refine frugal_lift_bind (Nat.le_succ 1) advances_peek fun lead => ?_
  have law := congruence_advances.compatible
  split
  · split
    · exact ((frugal_lift_of_moves law.skip moves_skip).bind fun _ => frugal_pure _).mono
        (Nat.le_succ 1)
    · exact frugal_fail (Nat.le_succ 1) _
  · exact h.bind fun _ => frugal_pure _

/-- A parameter behind the sentinel pays for its turn. -/
theorem Frugal.param (h : inner.Frugal 1) : (Reader.param inner convention).Frugal 1 := by
  refine frugal_lift_bind (Nat.le_succ 1) advances_position fun offset => ?_
  refine frugal_lift_bind (Nat.le_succ 1) advances_peek fun lead => ?_
  split
  · exact frugal_fail (Nat.le_succ 1) _
  · exact h

/-- All turns of the loop over parameters are paid for. -/
theorem Frugal.params (h : inner.Frugal 1) (count index : Nat) :
    (Reader.params inner convention count index).Frugal 0 := by
  induction count generalizing index with
  | zero => exact frugal_pure _
  | succ count ih =>
    refine h.markOrParam.turn.bind fun found => ?_
    cases found with
    | none => exact (h.param.items (count + 1)).bind fun _ => frugal_pure _
    | some param => exact (ih (index + 1)).bind fun _ => frugal_pure _

/-- There are as many parameters as were asked for, and each of them takes a byte. -/
theorem Frugal.counts_params (h : inner.Frugal 1) (count index : Nat) :
    (Reader.params inner convention count index).Counts count fun found => found.1.length := by
  induction count generalizing index with
  | zero =>
    intro start found stop hrun
    obtain ⟨rfl, rfl⟩ := Outcome.ok.inj hrun
    exact ⟨rfl, Nat.le_refl _⟩
  | succ count ih =>
    intro start found stop hrun
    obtain ⟨first, place, hfirst, hrest⟩ := run_bind_eq_ok_iff.1 hrun
    have hlt := h.markOrParam.moves _ _ _ hfirst
    cases first with
    | none =>
      obtain ⟨params, place', hparams, hpure⟩ := run_bind_eq_ok_iff.1 hrest
      obtain ⟨rfl, rfl⟩ := Outcome.ok.inj hpure
      obtain ⟨hlength, hle⟩ := h.param.counts_items (count + 1) place params _ hparams
      exact ⟨hlength, Nat.le_trans (Nat.add_le_add_right (Nat.le_of_lt hlt) _) hle⟩
    | some param =>
      obtain ⟨others, place', hothers, hpure⟩ := run_bind_eq_ok_iff.1 hrest
      obtain ⟨rfl, rfl⟩ := Outcome.ok.inj hpure
      obtain ⟨hlength, hle⟩ := ih (index + 1) place others _ hothers
      refine ⟨congrArg Nat.succ hlength, ?_⟩
      omega

/-- The result leaves the slack of a type. -/
theorem Frugal.resultAndParams (h : inner.Frugal 1) (count : Nat) :
    (Reader.resultAndParams inner convention count).Frugal 1 :=
  h.bind fun _ => ((h.params count 0).tally (h.counts_params count 0)).bind fun _ => frugal_pure _

/-- A method pays for its types and its parameters. -/
theorem Frugal.method (h : inner.Frugal 1) : (Reader.method inner).Frugal 0 := by
  have law := congruence_advances.compatible
  have hcounts : ∀ (convention : Convention) (count : Nat),
      (Reader.resultAndParams inner convention count).Counts count fun found =>
        found.2.1.length :=
    fun _ count => .behind h.advances (fun _ => h.counts_params count 0) fun _ _ => rfl
  refine (frugal_lift law.decodeHeader).bind fun header => ?_
  refine (frugal_lift law.decodeUnsigned).bind fun count => ?_
  have hfound := (h.resultAndParams count).tally (hcounts header.convention count)
  exact (hfound.mono (Nat.zero_le 1)).bind fun _ => frugal_pure _

/-! ## Types -/

/-- The count of a list of types pays for itself, and each type for its turn. -/
theorem Frugal.nonempty (h : inner.Frugal 1) (ifEmpty : Defect) :
    (Reader.nonempty inner ifEmpty).Frugal 2 := by
  refine frugal_located_bind fun count => ?_
  split
  · exact frugal_fail (Nat.zero_le 2) _
  · exact h.list _

/-- What an element type announces is paid for. -/
theorem Frugal.body (h : inner.Frugal 1) (element : ElementType) :
    (Reader.body inner element).Frugal 0 := by
  have law := congruence_advances.compatible
  have hinner := h.mono (Nat.zero_le 1)
  have hmodified : ∀ required, (Reader.modified inner required).Frugal 0 := fun required =>
    (frugal_lift law.decodeToken).bind fun _ => hinner.bind fun _ => frugal_pure _
  cases element with
  | primitive => exact frugal_pure _
  | valueType | classType => exact (frugal_lift law.decodeToken).bind fun _ => frugal_pure _
  | typeParameter | methodParameter =>
    exact (frugal_lift law.decodeUnsigned).bind fun _ => frugal_pure _
  | pointer | byRef | vector | pinned => exact hinner.bind fun _ => frugal_pure _
  | array =>
    have hshape := frugal_shape.mono (Nat.zero_le 2)
    exact hinner.bind fun _ => hshape.bind fun _ => frugal_pure _
  | instantiation =>
    refine (frugal_lift law.decodeBaseMarker).bind fun _ => ?_
    refine (frugal_lift law.decodeToken).bind fun _ => ?_
    exact ((h.nonempty _).mono (Nat.zero_le 2)).bind fun _ => frugal_pure _
  | functionPointer => exact h.method.bind fun _ => frugal_pure _
  | requiredModifier | optionalModifier => exact hmodified _

/-- The first byte of a type pays for the call and for a turn around it. -/
theorem Frugal.typeWith (h : inner.Frugal 1) : (Reader.typeWith inner).Frugal 2 := by
  refine frugal_lift_bind (Nat.le_refl 2) advances_position fun offset => ?_
  refine (frugal_lift_of_moves advances_byte moves_byte).bind fun lead => ?_
  split
  · exact frugal_fail (Nat.zero_le 2) _
  · exact h.body _

end

/-- A call pays for itself and leaves slack for the turn around it. -/
theorem frugal_type (limit levels : Nat) : (type limit levels).Frugal 1 := by
  induction levels with
  | zero => exact (frugal_lift_of_moves (advances_guard limit) nofun).turn
  | succ levels ih => exact ih.typeWith.turn

/-! ## Signatures -/

/-- A signature of each kind pays for all its turns. -/
theorem Frugal.signature {inner : Recorder TypeSig} (h : inner.Frugal 1)
    (kind : SignatureKind) : (Reader.signature inner kind).Frugal 0 := by
  have law := congruence_advances.compatible
  have hinner := h.mono (Nat.zero_le 1)
  cases kind with
  | method => exact h.method.bind fun _ => frugal_pure _
  | field => exact (frugal_lift (law.decodeLead _)).bind fun _ => hinner.bind fun _ => frugal_pure _
  | property =>
    refine (frugal_lift (law.decodeLead _)).bind fun lead => ?_
    refine (frugal_lift law.decodeUnsigned).bind fun count => ?_
    have hfound : (Reader.typeAndParams inner count).Frugal 0 :=
      hinner.bind fun _ => (h.list count).bind fun _ => frugal_pure _
    have hcounts : (Reader.typeAndParams inner count).Counts count fun found =>
        found.2.length :=
      .behind h.advances (fun _ => h.counts_items count) fun _ _ => rfl
    exact (hfound.tally hcounts).bind fun _ => frugal_pure _
  | typeSpec => exact hinner.bind fun _ => frugal_pure _
  | locals | methodSpec =>
    refine (frugal_lift (law.decodeLead _)).bind fun _ => ?_
    exact ((h.nonempty _).mono (Nat.zero_le 2)).bind fun _ => frugal_pure _

/-- A subject pays for all its turns, bytes left over or not. -/
theorem frugal_subject (options : DecodeOptions) (kind : SubjectKind) :
    (subject options kind).Frugal 0 := by
  have htype := frugal_type options.limit options.limit
  cases kind with
  | signature kind =>
    refine (htype.signature kind).bind fun whole => ?_
    exact (frugal_lift (advances_finish options)).bind fun _ => frugal_pure _
  | type => exact (htype.mono (Nat.zero_le 1)).bind fun _ => frugal_pure _

end Recorder

namespace Subject

/-- Reading is recorded as it is, for all kinds, starts and options, and whatever numbers the blob
claims. Each call and each turn of a loop fails or goes over a byte, and there are at most two of
them for each byte that is gone over, and two more. Each list that is read is no longer than what
was left of the blob behind its count. What is read has no more types, at all depths, with sizes and
lower bounds of arrays, than bytes were gone over. -/
theorem frugal_decode (options : DecodeOptions) (kind : SubjectKind) (start : Cursor) :
    (Recorder.subject options kind).decoder = decode options kind ∧
    ∃ consumed, start.Passes consumed ((decode options kind).run start).stop ∧
      (∀ turn ∈ ((Recorder.subject options kind).journal start).turns, turn.Progresses) ∧
      ((Recorder.subject options kind).journal start).turns.length ≤ 2 * consumed.length + 2 ∧
      (∀ tally ∈ ((Recorder.subject options kind).journal start).tallies, tally.Fits) ∧
      ∀ subject stop, (decode options kind).run start = .ok subject stop →
        subject.nodes.length + (subject.nodes.flatMap TypeSig.arraySizes).length +
          (subject.nodes.flatMap TypeSig.arrayLowerBounds).length ≤ consumed.length := by
  have hfrugal := Recorder.frugal_subject options kind
  have hpaid := hfrugal.paid start
  have hsound := hfrugal.sound start
  rw [Recorder.decoder_subject] at hpaid
  obtain ⟨consumed, hpasses⟩ := advances_subject options kind start
  have hdebt := ((decode options kind).run start).debt_le
  refine ⟨Recorder.decoder_subject options kind, consumed, hpasses, hsound.turns, ?_,
    hsound.tallies, ?_⟩
  · have hposition := hpasses.2
    omega
  · intro subject stop hrun
    obtain ⟨bytes, hderives, hbytes⟩ := exists_derives hrun
    rw [hrun] at hpasses
    -- both lead from the start to the stop
    have hlength : consumed.length = bytes.length := by
      have hposition := hpasses.2
      have hposition' := hbytes.2
      simp only [Outcome.stop] at hposition
      omega
    rw [hlength]
    exact load_nodes_le hderives

/-- A pointer to a method with two parameters behind the mark of the sentinel, an array with a size
and a string. The twelve bytes are read in nine turns, one of which goes over the mark, and make
five types and a size. -/
theorem frugal_decode_functionPointer :
    ∃ subject journal,
      (decode ⟨4, true⟩ .type).run
          (.start [0x1B, 0x05, 0x02, 0x01, 0x41, 0x14, 0x08, 0x01, 0x01, 0x03, 0x00, 0x0E]) =
        .ok subject ⟨12, []⟩ ∧
      (Recorder.subject ⟨4, true⟩ .type).journal
          (.start [0x1B, 0x05, 0x02, 0x01, 0x41, 0x14, 0x08, 0x01, 0x01, 0x03, 0x00, 0x0E]) =
        journal ∧
      journal.turns.length = 9 ∧ journal.turns.length ≤ 26 ∧
      journal.tallies.map (fun tally => (tally.place.position, tally.length)) =
        [(9, 1), (11, 0), (4, 2), (3, 2)] ∧
      subject.nodes.length = 5 ∧ (subject.nodes.flatMap TypeSig.arraySizes).length = 1 ∧
      subject.nodes.length + (subject.nodes.flatMap TypeSig.arraySizes).length +
        (subject.nodes.flatMap TypeSig.arrayLowerBounds).length ≤ 12 := by
  obtain ⟨-, consumed, hpasses, -, hturns, -, hload⟩ := frugal_decode ⟨4, true⟩ .type
    (.start [0x1B, 0x05, 0x02, 0x01, 0x41, 0x14, 0x08, 0x01, 0x01, 0x03, 0x00, 0x0E])
  have hlength : 12 = 0 + consumed.length := hpasses.2
  rw [Nat.zero_add] at hlength
  rw [← hlength] at hturns hload
  exact ⟨_, _, rfl, rfl, rfl, hturns, rfl, rfl, rfl, hload _ _ rfl⟩

end Subject

end SignatureBlob
