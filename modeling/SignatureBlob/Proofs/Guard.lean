import SignatureBlob.Proofs.Deepening
import SignatureBlob.Proofs.Nesting

/-!
# The guard of the limit

The guard trips over a type before the first byte of the type is read. So where it trips is told by
the bytes in front alone, and each reader has its own fronts: those of the types directly inside,
each continued by a front of the reader of the types inside. Since everything is read from left to
right, a reader never gets behind a place where a type begins too deep.

Main statements: `TypeSig.trips_decodeWithin` and `Subject.trips_decode` (with as many levels as the
limit, the guard trips in front of types inside so many others).
-/

namespace SignatureBlob

open Grammar Decoder CompressedInt

/-- The next byte is not the sentinel mark, and there is one. -/
def Cursor.Unmarked (place : Cursor) : Prop :=
  ∃ lead rest, place.ahead = lead :: rest ∧ lead ≠ ElementType.sentinelByte

namespace Decoder

variable {α β : Type}

/-! ## Readers without a guard -/

/-- A decoder that never fails for the depth of a type. -/
def Quiet (decoder : Decoder α) : Prop :=
  ∀ start error stop, decoder.run start = .error error stop → error.kind ≠ .maxDepthExceeded

/-- What fails only for lack of bytes never trips. -/
theorem quiet_of_truncated {decoder : Decoder α}
    (h : ∀ start error stop, decoder.run start = .error error stop → error.kind = .truncated) :
    decoder.Quiet := by
  intro start error stop hrun
  rw [h start error stop hrun]
  decide

/-- A sequence is quiet if its parts are. -/
theorem quiet_bind {first : Decoder α} {next : α → Decoder β} (hfirst : first.Quiet)
    (hnext : ∀ value, (next value).Quiet) : (first >>= next).Quiet := by
  intro start error stop hrun
  rcases run_bind_eq_error_iff.1 hrun with hstop | ⟨value, middle, -, hrest⟩
  · exact hfirst start error stop hstop
  · exact hnext value middle error stop hrest

/-- A value that is given back does not trip. -/
theorem quiet_pure (value : α) : (pure value : Decoder α).Quiet := by
  rintro start error stop ⟨⟩

/-- To ask for the place does not trip. -/
theorem quiet_position : position.Quiet := by
  rintro start error stop ⟨⟩

/-- A look trips over nothing. -/
theorem quiet_peek : peek.Quiet := by
  refine quiet_of_truncated fun start error stop hrun => ?_
  rw [(of_run_peek_eq_error hrun).1]
  rfl

/-- To take a byte trips over nothing. -/
theorem quiet_byte : byte.Quiet := by
  refine quiet_of_truncated fun start error stop hrun => ?_
  rw [(of_run_byte_eq_error hrun).1]
  rfl

/-- To take bytes trips over nothing. -/
theorem quiet_bytes (count : Nat) : (bytes count).Quiet := by
  refine quiet_of_truncated fun start error stop hrun => ?_
  rw [(of_run_bytes_eq_error hrun).1]
  rfl

/-- An error with a byte to blame is not the guard's. -/
theorem quiet_fail {error : Error} (h : error.observed?.isSome) :
    (fail error : Decoder α).Quiet := by
  intro start cause stop hrun
  obtain ⟨rfl, -⟩ := Outcome.error.inj hrun
  exact (Error.kind_ne_of_observed? h).2

/-- Going back does not trip. -/
theorem quiet_transaction {decoder : Decoder α} (h : decoder.Quiet) :
    decoder.transaction.Quiet := by
  intro start error stop hrun
  obtain ⟨-, place, hstop⟩ := run_transaction_eq_error_iff.1 hrun
  exact h start error place hstop

/-- Quiet decoders stay quiet in all the ways in which readers are put together. -/
theorem compatible_quiet : Compatible fun _ decoder _ => decoder.Quiet :=
  Congruence.compatible <| Closed.congruence {
    pure := quiet_pure
    bind := quiet_bind
    position := quiet_position
    peek := quiet_peek
    byte := quiet_byte
    bytes := quiet_bytes
    fail := quiet_fail
    transaction := quiet_transaction }

/-! ## Trips -/

/-- The guard of the limit trips on the way from `start` to the place, or at the place. -/
def TripsBy (limit : Nat) (decoder : Decoder α) (start place : Cursor) : Prop :=
  ∃ stop, decoder.run start = .error (.maxDepthExceeded limit stop.position) stop ∧
    stop.position ≤ place.position

/-- Where the guard trips in a decoder. -/
structure Trips (limit : Nat) (decoder : Decoder α) (fronts : List UInt8 → Prop) : Prop where
  /-- It trips behind fronts and nowhere else, and the error tells the place. -/
  sound : ∀ {start error stop}, decoder.run start = .error error stop →
    error.kind = .maxDepthExceeded → error = .maxDepthExceeded limit stop.position ∧
      ∃ front, fronts front ∧ start.Passes front stop
  /-- No front is passed, unless the sentinel mark or nothing stands behind it. -/
  complete : ∀ {start front place}, fronts front → start.Passes front place → place.Unmarked →
    TripsBy limit decoder start place

/-- The decoder reads what the grammar has, except that the guard may trip on the way. -/
structure Reaches (limit : Nat) (decoder : Decoder α) (grammar : α → List UInt8 → Prop) :
    Prop where
  /-- What is read is in the grammar. -/
  sound : ∀ {start value stop}, decoder.run start = .ok value stop →
    ∃ bytes, grammar value bytes ∧ start.Passes bytes stop
  /-- What is in the grammar is read, or the guard trips before its end. -/
  complete : ∀ {start value bytes place}, grammar value bytes → start.Passes bytes place →
    decoder.run start = .ok value place ∨ TripsBy limit decoder start place

variable {limit : Nat} {first : Decoder α} {next : α → Decoder β}
  {grammar : α → List UInt8 → Prop} {fronts others : List UInt8 → Prop}
  {rest : α → List UInt8 → Prop}

/-- What recognizes a grammar reaches the end of it within every limit. -/
theorem Recognizes.reaches (h : first.Recognizes grammar) (limit : Nat) :
    first.Reaches limit grammar where
  sound hrun := (h _ _ _).1 hrun
  complete hvalue hpasses := .inl ((h _ _ _).2 ⟨_, hvalue, hpasses⟩)

/-- Only which bytes stand in front of the guard matters. -/
theorem Trips.congr (h : first.Trips limit fronts) (hiff : ∀ front, fronts front ↔ others front) :
    first.Trips limit others where
  sound hrun hkind := by
    obtain ⟨herror, front, hfront, hpasses⟩ := h.sound hrun hkind
    exact ⟨herror, front, (hiff front).1 hfront, hpasses⟩
  complete hfront := h.complete ((hiff _).2 hfront)

/-- What is quiet trips behind no bytes. -/
theorem Quiet.trips (h : first.Quiet) (limit : Nat) : first.Trips limit fun _ => False where
  sound hrun hkind := absurd hkind (h _ _ _ hrun)
  complete hfalse := hfalse.elim

/-- The guard trips in the first of two decoders, or in the second behind what the first reads. -/
theorem trips_bind (hreaches : first.Reaches limit grammar) (hfirst : first.Trips limit fronts)
    (hnext : ∀ value, (next value).Trips limit (rest value)) :
    (first >>= next).Trips limit fun bytes => fronts bytes ∨ ∃ value front back,
      grammar value front ∧ rest value back ∧ bytes = front ++ back where
  sound := by
    intro start error stop hrun hkind
    rcases run_bind_eq_error_iff.1 hrun with hstop | ⟨value, middle, hmiddle, hstop⟩
    · obtain ⟨herror, front, hfront, hpasses⟩ := hfirst.sound hstop hkind
      exact ⟨herror, front, .inl hfront, hpasses⟩
    · obtain ⟨front, hvalue, hfront⟩ := hreaches.sound hmiddle
      obtain ⟨herror, back, hrest, hback⟩ := (hnext value).sound hstop hkind
      exact ⟨herror, front ++ back, .inr ⟨value, front, back, hvalue, hrest, rfl⟩,
        hfront.trans hback⟩
  complete := by
    intro start bytes place hbytes hpasses hplace
    have hstay : ∀ {middle : Cursor}, middle.position ≤ place.position →
        TripsBy limit first start middle → TripsBy limit (first >>= next) start place := by
      rintro middle hle ⟨stop, hrun, hstop⟩
      exact ⟨stop, run_bind_error hrun next, Nat.le_trans hstop hle⟩
    rcases hbytes with hfront | ⟨value, front, back, hvalue, hback, rfl⟩
    · exact hstay (Nat.le_refl _) (hfirst.complete hfront hpasses hplace)
    · obtain ⟨middle, hmiddle, hplace'⟩ := Cursor.passes_append_iff.1 hpasses
      rcases hreaches.complete hvalue hmiddle with hrun | htrips
      · obtain ⟨stop, hstop, hle⟩ := (hnext value).complete hback hplace' hplace
        exact ⟨stop, (run_bind_ok hrun next).trans hstop, hle⟩
      · exact hstay (hplace'.2 ▸ Nat.le_add_right _ _) htrips

/-- Behind a decoder without a guard. -/
theorem trips_behind (hfirst : first.Recognizes grammar) (hquiet : first.Quiet)
    (hnext : ∀ value, (next value).Trips limit (rest value)) :
    (first >>= next).Trips limit fun bytes => ∃ value front back,
      grammar value front ∧ rest value back ∧ bytes = front ++ back :=
  (trips_bind (hfirst.reaches limit) (hquiet.trips limit) hnext).congr fun _ =>
    iff_of_eq (false_or _)

/-- In front of a decoder without a guard. -/
theorem trips_before (hfirst : first.Trips limit fronts) (hnext : ∀ value, (next value).Quiet) :
    (first >>= next).Trips limit fronts where
  sound := by
    intro start error stop hrun hkind
    rcases run_bind_eq_error_iff.1 hrun with hstop | ⟨value, middle, -, hstop⟩
    · exact hfirst.sound hstop hkind
    · exact absurd hkind (hnext value _ _ _ hstop)
  complete := by
    intro start front place hfront hpasses hplace
    obtain ⟨stop, hrun, hle⟩ := hfirst.complete hfront hpasses hplace
    exact ⟨stop, run_bind_error hrun next, hle⟩

/-- A value that is read last is wrapped. -/
theorem trips_map (hfirst : first.Trips limit fronts) (f : α → β) :
    (first >>= fun value => pure (f value)).Trips limit fronts :=
  trips_before hfirst fun value => quiet_pure (f value)

/-- A question moves nothing, so the guard trips where it does behind it. -/
theorem trips_ask_bind {question : Cursor → α}
    (hnext : ∀ answer, (next answer).Trips limit fronts) :
    (ask question >>= next).Trips limit fronts where
  sound {start _ _} hrun := (hnext (question start)).sound hrun
  complete {start _ _} := (hnext (question start)).complete

/-- Where a value began and with which byte does not matter to the guard. -/
theorem trips_located_bind {next : Located α → Decoder β} (hfirst : first.Recognizes grammar)
    (hquiet : first.Quiet) (hmoves : ∀ value, ¬ grammar value [])
    (hnext : ∀ offset lead value, (next ⟨offset, lead, value⟩).Trips limit (rest value)) :
    (first.located >>= next).Trips limit fun bytes => ∃ value front back,
      grammar value front ∧ rest value back ∧ bytes = front ++ back := by
  have hbehind : ∀ offset lead, (first >>= fun value => next ⟨offset, lead, value⟩).Trips limit
      fun bytes => ∃ value front back, grammar value front ∧ rest value back ∧
        bytes = front ++ back :=
    fun offset lead => trips_behind hfirst hquiet (hnext offset lead)
  rw [located_bind_eq]
  refine trips_ask_bind fun offset => ⟨?_, ?_⟩
  · intro start error stop hrun hkind
    obtain ⟨place, ahead⟩ := start
    cases ahead with
    | nil =>
      obtain ⟨rfl, -⟩ := Outcome.error.inj hrun
      cases hkind
    | cons lead ahead => exact (hbehind offset lead).sound hrun hkind
  · intro start bytes place hbytes hpasses
    obtain ⟨position, ahead⟩ := start
    cases ahead with
    | nil =>
      obtain ⟨value, front, back, hvalue, -, rfl⟩ := hbytes
      obtain ⟨hnil, -⟩ := List.append_eq_nil_iff.1 hpasses.1.symm
      obtain ⟨rfl, -⟩ := List.append_eq_nil_iff.1 hnil
      exact absurd hvalue (hmoves value)
    | cons lead ahead => exact (hbehind offset lead).complete hbytes hpasses

end Decoder

/-! ## Lists of types -/

/-- In front of a type inside one of the values of a list there are values of the list, and then a
front in the one that is begun. -/
theorem Grammar.joined_begun_succ_iff {α : Type} {item : α → List UInt8 → Prop} {count : Nat}
    {deeper : List UInt8 → Prop} {bytes : List UInt8} :
    Joined (Begun item (count + 1)) deeper bytes ↔ deeper bytes ∨ ∃ value front back,
      item value front ∧ Joined (Begun item count) deeper back ∧ bytes = front ++ back := by
  constructor
  · rintro ⟨begun, last, hbegun, hlast, rfl⟩
    rcases begun_succ_iff.1 hbegun with rfl | ⟨value, front, back, hvalue, hback, rfl⟩
    · exact .inl hlast
    · exact .inr ⟨value, front, back ++ last, hvalue, ⟨back, last, hback, hlast, rfl⟩,
        List.append_assoc _ _ _⟩
  · rintro (hlast | ⟨value, front, _, hvalue, ⟨back, last, hback, hlast, rfl⟩, rfl⟩)
    · exact ⟨[], bytes, begun_succ_iff.2 (.inl rfl), hlast, rfl⟩
    · exact ⟨front ++ back, last, begun_succ_iff.2 (.inr ⟨value, front, back, hvalue, hback, rfl⟩),
        hlast, (List.append_assoc _ _ _).symm⟩

/-- Behind nothing the guard trips where it does by itself. -/
theorem Grammar.joined_iff_of_empty {fronts deeper : List UInt8 → Prop} {bytes : List UInt8}
    (h : ∀ front, fronts front ↔ front = []) : Joined fronts deeper bytes ↔ deeper bytes := by
  simp [Joined, h]

variable {inner : Decoder TypeSig} {limit : Nat} {deeper : List UInt8 → Prop}

/-- The guard trips in a list behind some whole members, in the next one. -/
theorem Decoder.trips_list (hreaches : inner.Reaches limit (TypeSig.Derives .wideEnough))
    (htrips : inner.Trips limit deeper) (count : Nat) :
    (inner.list count).Trips limit
      (Joined (Begun (TypeSig.Derives .wideEnough) count) deeper) := by
  induction count with
  | zero =>
    refine ((quiet_pure []).trips limit).congr fun bytes => ⟨False.elim, ?_⟩
    rintro ⟨_, _, hbegun, -, -⟩
    exact not_begun_zero hbegun
  | succ count ih =>
    refine (trips_bind hreaches htrips fun type => trips_map ih (type :: ·)).congr fun bytes => ?_
    exact joined_begun_succ_iff.symm

/-- The guard trips in a counted list behind the count and some whole members. -/
theorem TypeSig.trips_decodeNonempty
    (hreaches : inner.Reaches limit (TypeSig.Derives .wideEnough))
    (htrips : inner.Trips limit deeper) (defect : Defect) :
    (decodeNonempty inner defect).Trips limit (Joined BegunCounted deeper) := by
  have hcount : ∀ offset count, (if count = 0 then refuse offset 0 defect
      else inner.list count).Trips limit
        (Joined (Begun (TypeSig.Derives .wideEnough) count) deeper) := by
    intro offset count
    by_cases hzero : count = 0
    · rw [if_pos hzero]
      refine ((quiet_fail rfl).trips limit).congr fun bytes => ⟨False.elim, ?_⟩
      rintro ⟨_, _, hbegun, -, -⟩
      rw [hzero] at hbegun
      exact not_begun_zero hbegun
    · rw [if_neg hzero]
      exact trips_list hreaches htrips count
  refine (trips_located_bind recognizes_decodeUnsigned compatible_quiet.decodeUnsigned
    (fun _ h => h.ne_nil rfl) fun offset lead count => hcount offset count).congr fun bytes => ?_
  constructor
  · rintro ⟨count, front, _, hnumber, ⟨back, last, hbegun, hlast, rfl⟩, rfl⟩
    exact ⟨front ++ back, last, ⟨count, front, back, hnumber, hbegun, rfl⟩, hlast,
      (List.append_assoc _ _ _).symm⟩
  · rintro ⟨_, last, ⟨count, front, back, hnumber, hbegun, rfl⟩, hlast, rfl⟩
    exact ⟨count, front, back ++ last, hnumber, ⟨back, last, hbegun, hlast, rfl⟩,
      List.append_assoc _ _ _⟩

/-! ## Methods -/

namespace MethodSig

variable {convention : Convention} {index : Nat} {sentinel : Option Nat}

/-- To look for the mark of the sentinel trips over nothing. -/
theorem quiet_decodeSentinel : (decodeSentinel convention index sentinel).Quiet := by
  have hlook : ∀ next : Nat → UInt8 → Decoder (Option Nat), (∀ offset lead,
      (next offset lead).Quiet) → (position >>= fun offset => peek >>= next offset).Quiet :=
    fun next h => quiet_bind quiet_position fun offset => quiet_bind quiet_peek (h offset)
  refine hlook _ fun offset lead => ?_
  split
  · exact quiet_pure sentinel
  split
  · exact quiet_fail rfl
  refine quiet_bind compatible_quiet.skip fun _ => hlook _ fun offset lead => ?_
  split
  · exact quiet_fail rfl
  · exact quiet_pure _

/-- Fronts that are empty or begin with another byte than the mark. -/
def UnmarkedFronts (fronts : List UInt8 → Prop) : Prop :=
  ∀ front, fronts front → front = [] ∨ ∃ lead rest, front = lead :: rest ∧
    lead ≠ ElementType.sentinelByte

/-- The look ahead takes no type for a mark, so it is in the way of no front. -/
theorem trips_decodeSentinel_bind {α : Type} {next : Option Nat → Decoder α}
    {fronts : Option Nat → List UInt8 → Prop}
    (hnext : ∀ place, (next place).Trips limit (fronts place))
    (hunmarked : ∀ place, UnmarkedFronts (fronts place)) :
    (decodeSentinel convention index sentinel >>= next).Trips limit fun bytes =>
      fronts sentinel bytes ∨ (sentinel = none ∧ convention.admitsVarArgs = true ∧ ∃ back,
        fronts (some index) back ∧ bytes = ElementType.sentinelByte :: back) where
  sound := by
    intro start error stop hrun hkind
    rcases run_bind_eq_error_iff.1 hrun with hstop | ⟨place, middle, hlook, hstop⟩
    · exact absurd hkind (quiet_decodeSentinel _ _ _ hstop)
    obtain ⟨herror, front, hfront, hpasses⟩ := (hnext place).sound hstop hkind
    rcases exists_of_run_decodeSentinel hlook with ⟨rfl, rfl⟩ | ⟨hnone, hadmits, rfl, hmark⟩
    · exact ⟨herror, front, .inl hfront, hpasses⟩
    · exact ⟨herror, ElementType.sentinelByte :: front,
        .inr ⟨hnone, hadmits, front, hfront, rfl⟩, hmark.trans hpasses⟩
  complete := by
    intro start bytes target hbytes hpasses htarget
    -- what stands ahead of a front in the blob does not begin with the mark
    have hahead : ∀ {place front}, fronts place front → ∃ lead rest,
        front ++ target.ahead = lead :: rest ∧ lead ≠ ElementType.sentinelByte := by
      intro place front hfront
      rcases hunmarked place front hfront with rfl | ⟨lead, rest, rfl, hlead⟩
      · exact htarget
      · exact ⟨lead, rest ++ target.ahead, rfl, hlead⟩
    obtain ⟨position, ahead⟩ := start
    rcases hbytes with hfront | ⟨rfl, hadmits, back, hback, rfl⟩
    · obtain ⟨lead, rest, hcons, hlead⟩ := hahead hfront
      obtain rfl : ahead = lead :: rest := hpasses.1.trans hcons
      obtain ⟨stop, hstop, hle⟩ := (hnext sentinel).complete hfront hpasses htarget
      exact ⟨stop, (run_bind_ok (run_decodeSentinel_of_ne hlead) next).trans hstop, hle⟩
    · obtain ⟨ahead, rfl, hback'⟩ := Cursor.passes_cons_iff.1 hpasses
      obtain ⟨lead, rest, hcons, hlead⟩ := hahead hback
      obtain rfl : ahead = lead :: rest := hback'.1.trans hcons
      obtain ⟨stop, hstop, hle⟩ := (hnext (some index)).complete hback hback' htarget
      exact ⟨stop, (run_bind_ok (run_decodeSentinel_mark hlead hadmits) next).trans hstop, hle⟩

/-- The first of `count` parameters behind the mark if it has been seen. -/
def BegunFrom (convention : Convention) (count : Nat) : (seen : Option Nat) → List UInt8 → Prop
  | some _ => Begun (TypeSig.Derives .wideEnough) count
  | none => BegunParams convention count

/-- Of parameters that are begun nothing stands there yet, or the first of them does, or the mark in
front of them. -/
theorem begunParams_succ_iff {count : Nat} {bytes : List UInt8} :
    BegunParams convention (count + 1) bytes ↔
      bytes = [] ∨ (∃ param front back, TypeSig.Derives .wideEnough param front ∧
        BegunParams convention count back ∧ bytes = front ++ back) ∨
      (convention.admitsVarArgs = true ∧ ∃ back,
        Begun (TypeSig.Derives .wideEnough) (count + 1) back ∧
          bytes = ElementType.sentinelByte :: back) := by
  constructor
  · intro h
    cases h with
    | fixed begun =>
      rcases begun_succ_iff.1 begun with rfl | ⟨param, front, back, hparam, hback, rfl⟩
      · exact .inl rfl
      · exact .inr (.inl ⟨param, front, back, hparam, .fixed hback, rfl⟩)
    | varArgs before behind fewer admitted =>
      cases before with
      | nil =>
        rw [List.length_nil, Nat.zero_add] at fewer
        exact .inr (.inr ⟨admitted, _, .intro behind fewer, rfl⟩)
      | cons head tail =>
        rw [List.length_cons, Nat.add_right_comm] at fewer
        exact .inr (.inl ⟨_, _, _, head,
          .varArgs tail behind (Nat.lt_of_succ_lt_succ fewer) admitted, List.append_assoc _ _ _⟩)
  · rintro (rfl | ⟨param, front, back, hparam, hback, rfl⟩ | ⟨admitted, back, ⟨each, fewer⟩, rfl⟩)
    · exact .fixed (begun_succ_iff.2 (.inl rfl))
    · cases hback with
      | fixed begun =>
        exact .fixed (begun_succ_iff.2 (.inr ⟨param, front, back, hparam, begun, rfl⟩))
      | varArgs before behind fewer admitted =>
        rw [← List.append_assoc]
        refine .varArgs (.cons hparam before) behind ?_ admitted
        rw [List.length_cons, Nat.add_right_comm]
        exact Nat.succ_lt_succ fewer
    · refine .varArgs .nil each ?_ admitted
      rwa [List.length_nil, Nat.zero_add]

/-- Where the types in front of the first parameter, in it or behind it begin. -/
theorem joined_begunFrom_succ_iff {count : Nat} {bytes : List UInt8} :
    Joined (BegunFrom convention (count + 1) sentinel) deeper bytes ↔
      (deeper bytes ∨ ∃ param front back, TypeSig.Derives .wideEnough param front ∧
        Joined (BegunFrom convention count sentinel) deeper back ∧ bytes = front ++ back) ∨
      (sentinel = none ∧ convention.admitsVarArgs = true ∧ ∃ back,
        Joined (Begun (TypeSig.Derives .wideEnough) (count + 1)) deeper back ∧
          bytes = ElementType.sentinelByte :: back) := by
  cases sentinel with
  | some place =>
    simp only [reduceCtorEq, false_and, or_false]
    exact joined_begun_succ_iff
  | none =>
    simp only [BegunFrom, true_and]
    constructor
    · rintro ⟨begun, last, hbegun, hlast, rfl⟩
      rcases begunParams_succ_iff.1 hbegun with rfl | ⟨param, front, back, hparam, hback, rfl⟩ |
        ⟨hadmits, back, hback, rfl⟩
      · exact .inl (.inl hlast)
      · exact .inl (.inr ⟨param, front, back ++ last, hparam, ⟨back, last, hback, hlast, rfl⟩,
          List.append_assoc _ _ _⟩)
      · exact .inr ⟨hadmits, back ++ last, ⟨back, last, hback, hlast, rfl⟩, rfl⟩
    · rintro ((hlast | ⟨param, front, _, hparam, ⟨back, last, hback, hlast, rfl⟩, rfl⟩) |
        ⟨hadmits, _, ⟨back, last, hback, hlast, rfl⟩, rfl⟩)
      · exact ⟨[], bytes, begunParams_succ_iff.2 (.inl rfl), hlast, rfl⟩
      · exact ⟨front ++ back, last,
          begunParams_succ_iff.2 (.inr (.inl ⟨param, front, back, hparam, hback, rfl⟩)), hlast,
          (List.append_assoc _ _ _).symm⟩
      · have hbegun : BegunParams convention (count + 1) (ElementType.sentinelByte :: back) :=
          begunParams_succ_iff.2 (.inr (.inr ⟨hadmits, back, hback, rfl⟩))
        exact ⟨_, last, hbegun, hlast, rfl⟩

/-- The guard trips in the parameters behind some whole ones, with the mark among them. -/
theorem trips_decodeParams (hreaches : inner.Reaches limit (TypeSig.Derives .wideEnough))
    (htrips : inner.Trips limit deeper) (hunmarked : UnmarkedFronts deeper) (count : Nat) :
    (decodeParams inner convention count index sentinel).Trips limit
      (Joined (BegunFrom convention count sentinel) deeper) := by
  induction count generalizing index sentinel with
  | zero =>
    refine ((quiet_pure _).trips limit).congr fun bytes => ⟨False.elim, ?_⟩
    rintro ⟨begun, _, hbegun, -, -⟩
    cases sentinel with
    | some place => exact not_begun_zero hbegun
    | none =>
      cases hbegun with
      | fixed begun => exact not_begun_zero begun
      | varArgs _ _ fewer _ => exact Nat.not_lt_zero _ fewer
  | succ count ih =>
    have hrest : ∀ place, (decodeParams inner convention count (index + 1) place).Trips limit
        (Joined (BegunFrom convention count place) deeper) := fun place => ih
    refine (trips_decodeSentinel_bind (fun place => trips_bind hreaches htrips fun param =>
      trips_map (hrest place) fun found => (param :: found.1, found.2))
      fun place front hfront => ?_).congr fun bytes => ?_
    -- neither a front of a type nor a whole one looks like the mark
    · rcases hfront with hdeeper | ⟨param, front, back, hparam, -, rfl⟩
      · exact hunmarked front hdeeper
      · obtain ⟨lead, rest, rfl, hlead⟩ := TypeSig.unmarked_derivesWith _ _ _ _
          (TypeSig.derives_iff.1 hparam)
        exact .inr ⟨lead, rest ++ back, rfl, hlead⟩
    · rw [joined_begunFrom_succ_iff]
      simp only [BegunFrom, joined_begun_succ_iff]

/-- The types of a method begin where a method has them. -/
theorem trips_decodeWith (hreaches : inner.Reaches limit (TypeSig.Derives .wideEnough))
    (htrips : inner.Trips limit deeper) (hunmarked : UnmarkedFronts deeper) :
    (decodeWith inner).Trips limit (Joined Opens deeper) := by
  rw [decodeWith_eq]
  refine (trips_behind MethodHeader.recognizes_decode compatible_quiet.decodeHeader fun header =>
    trips_behind recognizes_decodeUnsigned compatible_quiet.decodeUnsigned fun count =>
      trips_bind hreaches htrips fun result => trips_map
        (trips_decodeParams hreaches htrips hunmarked count) fun found =>
          (⟨{ header with sentinel := found.2 }, result, found.1⟩ : MethodSig)).congr
    fun bytes => ?_
  constructor
  · rintro ⟨header, first, _, ⟨hheader, -⟩, ⟨count, second, last, hcount, hlast, rfl⟩, rfl⟩
    rcases hlast with hlast | ⟨result, third, _, hresult, ⟨fourth, last, hbegun, hlast, rfl⟩, rfl⟩
    · exact ⟨first ++ second, last, .result hheader hcount, hlast,
        (List.append_assoc _ _ _).symm⟩
    · exact ⟨_, last, .param hheader hcount hresult hbegun, hlast, by simp only [List.append_assoc]⟩
  · rintro ⟨_, last, hopens, hlast, rfl⟩
    cases hopens with
    | @result header _ _ _ headed counted =>
      exact ⟨{ header with sentinel := none }, _, _, ⟨headed.with_sentinel none, rfl⟩,
        ⟨_, _, _, counted, .inl hlast, rfl⟩, List.append_assoc _ _ _⟩
    | @param header _ _ _ _ _ _ headed counted returned begun =>
      exact ⟨{ header with sentinel := none }, _, _, ⟨headed.with_sentinel none, rfl⟩,
        ⟨_, _, _, counted, .inr ⟨_, _, _, returned, ⟨_, _, begun, hlast, rfl⟩, rfl⟩, rfl⟩,
        by simp only [List.append_assoc]⟩

end MethodSig

/-! ## Types -/

namespace TypeSig

/-- A type is read unless the guard trips before its end. -/
theorem reaches_decodeWithin (limit levels : Nat) :
    (decodeWithin limit levels).Reaches limit (Derives .wideEnough) where
  sound := by
    intro start type stop hrun
    obtain ⟨bytes, ⟨htype, -⟩, hbytes⟩ := (recognizes_decodeWithin _ _ _ _ _).1 hrun
    exact ⟨bytes, htype, hbytes⟩
  complete := by
    intro start type bytes place htype hbytes
    have hdeep : (decodeWithin limit (max levels type.depth)).run start = .ok type place :=
      (recognizes_decodeWithin _ _ _ _ _).2 ⟨bytes, ⟨htype, Nat.le_max_right _ _⟩, hbytes⟩
    have hshallow := agrees_decodeWithin limit limit (Nat.le_max_left levels type.depth) start
    rw [hdeep] at hshallow
    generalize hrun : (decodeWithin limit levels).run start = outcome at hshallow
    cases hshallow with
    | same => exact .inl rfl
    | @trips stop read =>
      obtain ⟨_, more, behind, -, hmore, hle⟩ := read type place rfl
      have hstop : stop.position ≤ behind.position := hmore.2 ▸ Nat.le_add_right _ _
      exact .inr ⟨stop, hrun, Nat.le_trans hstop hle⟩

/-- The guard trips behind the modifier, in the type that is modified. -/
theorem trips_decodeModified (htrips : inner.Trips limit deeper) (required : Bool) :
    (decodeModified inner required).Trips limit fun bytes => ∃ modifier front back,
      CodedToken.Derives .wideEnough modifier front ∧ deeper back ∧ bytes = front ++ back :=
  trips_behind CodedToken.recognizes_decode compatible_quiet.decodeToken fun modifier =>
    trips_map htrips (modified modifier required)

/-- The guard trips behind the token and the number of the arguments, in one of these. -/
theorem trips_decodeInstantiation (hreaches : inner.Reaches limit (Derives .wideEnough))
    (htrips : inner.Trips limit deeper) :
    (decodeInstantiation inner).Trips limit (Joined (Introduces .instantiation) deeper) := by
  refine (trips_behind recognizes_decodeBaseMarker compatible_quiet.decodeBaseMarker
    fun isValueType => trips_behind CodedToken.recognizes_decode compatible_quiet.decodeToken
      fun base => trips_map (trips_decodeNonempty hreaches htrips .noTypeArguments)
        (instantiation base isValueType)).congr fun bytes => ⟨?_, ?_⟩
  · rintro ⟨isValueType, _, _, rfl, ⟨base, first, _, hbase, ⟨second, last, hbegun, hlast, rfl⟩,
      rfl⟩, rfl⟩
    have hfront : Introduces .instantiation
        ((if isValueType then ElementType.valueType else ElementType.classType).byte ::
          (first ++ second)) :=
      .instantiation hbase hbegun
    exact ⟨_, last, hfront, hlast, by simp only [List.cons_append, List.nil_append,
      List.append_assoc]⟩
  · rintro ⟨_, last, hfront, hlast, rfl⟩
    cases hfront with
    | @instantiation base isValueType first second coded begun =>
      refine ⟨isValueType, _, _, rfl, ⟨base, first, _, coded, ⟨second, last, begun, hlast, rfl⟩,
        rfl⟩, ?_⟩
      simp only [List.cons_append, List.nil_append, List.append_assoc]

/-- The types inside what an element type announces begin where it has them. -/
theorem trips_decodeBody (hreaches : inner.Reaches limit (Derives .wideEnough))
    (htrips : inner.Trips limit deeper) (hunmarked : MethodSig.UnmarkedFronts deeper)
    (element : ElementType) :
    (decodeBody inner element).Trips limit (Joined (Introduces element) deeper) := by
  cases element with
  | primitive kind =>
    refine ((quiet_pure _).trips limit).congr fun bytes => ⟨False.elim, ?_⟩
    rintro ⟨_, _, ⟨⟩, -, -⟩
  | valueType | classType =>
    refine (trips_map (compatible_quiet.decodeToken.trips limit) _).congr fun bytes =>
      ⟨False.elim, ?_⟩
    rintro ⟨_, _, ⟨⟩, -, -⟩
  | typeParameter | methodParameter =>
    refine (trips_map (compatible_quiet.decodeUnsigned.trips limit) _).congr fun bytes =>
      ⟨False.elim, ?_⟩
    rintro ⟨_, _, ⟨⟩, -, -⟩
  | pointer | byRef | vector | pinned =>
    refine (trips_map htrips _).congr fun bytes => (joined_iff_of_empty fun front => ?_).symm
    constructor
    · rintro ⟨⟩
      rfl
    · rintro rfl
      constructor
  | array =>
    have hshape : ∀ element : TypeSig, (ArrayShape.decode >>= fun shape =>
        pure (array element shape) : Decoder TypeSig).Quiet := fun element =>
      quiet_bind compatible_quiet.decodeShape fun shape => quiet_pure (array element shape)
    refine (trips_before htrips hshape).congr fun bytes =>
      (joined_iff_of_empty fun front => ?_).symm
    constructor
    · rintro ⟨⟩
      rfl
    · rintro rfl
      constructor
  | instantiation => exact trips_decodeInstantiation hreaches htrips
  | functionPointer =>
    refine (trips_map (MethodSig.trips_decodeWith hreaches htrips hunmarked)
      MethodSig.pointer).congr fun bytes => ⟨?_, ?_⟩
    · rintro ⟨front, last, hfront, hlast, rfl⟩
      exact ⟨front, last, .functionPointer hfront, hlast, rfl⟩
    · rintro ⟨_, last, hfront, hlast, rfl⟩
      cases hfront with
      | functionPointer method => exact ⟨_, last, method, hlast, rfl⟩
  | requiredModifier =>
    refine (trips_decodeModified htrips true).congr fun bytes => ⟨?_, ?_⟩
    · rintro ⟨modifier, front, last, hfront, hlast, rfl⟩
      exact ⟨front, last, .requiredModifier hfront, hlast, rfl⟩
    · rintro ⟨_, last, hfront, hlast, rfl⟩
      cases hfront with
      | requiredModifier coded => exact ⟨_, _, last, coded, hlast, rfl⟩
  | optionalModifier =>
    refine (trips_decodeModified htrips false).congr fun bytes => ⟨?_, ?_⟩
    · rintro ⟨modifier, front, last, hfront, hlast, rfl⟩
      exact ⟨front, last, .optionalModifier hfront, hlast, rfl⟩
    · rintro ⟨_, last, hfront, hlast, rfl⟩
      cases hfront with
      | optionalModifier coded => exact ⟨_, _, last, coded, hlast, rfl⟩

/-- The types directly inside a type begin where it has them. -/
theorem trips_decodeWith (hreaches : inner.Reaches limit (Derives .wideEnough))
    (htrips : inner.Trips limit deeper) (hunmarked : MethodSig.UnmarkedFronts deeper) :
    (decodeWith inner).Trips limit (Joined Opens deeper) := by
  refine (trips_ask_bind fun offset => @trips_behind _ _ _ _ _ _ (fun lead bytes =>
    ∃ element, ElementType.ofByte? lead = some element ∧ Joined (Introduces element) deeper bytes)
    recognizes_byte quiet_byte fun lead => ?_).congr fun bytes => ?_
  · cases hlead : ElementType.ofByte? lead with
    | none =>
      simpa only [Reader.lift_decoder, reduceCtorEq, false_and, exists_false] using
        (quiet_fail rfl).trips limit
    | some element =>
      simpa only [Option.some.injEq, exists_eq_left'] using
        trips_decodeBody hreaches htrips hunmarked element
  constructor
  · rintro ⟨lead, _, _, rfl, ⟨element, helement, front, last, hfront, hlast, rfl⟩, rfl⟩
    obtain rfl := ElementType.byte_of_ofByte? helement
    exact ⟨_, last, .intro hfront, hlast, rfl⟩
  · rintro ⟨_, last, ⟨hfront⟩, hlast, rfl⟩
    exact ⟨_, _, _, rfl, ⟨_, ElementType.ofByte?_byte _, _, last, hfront, hlast, rfl⟩, rfl⟩

/-- No type that is too deep begins with the mark of the sentinel. -/
theorem unmarkedFronts_leads (outer : Nat) : MethodSig.UnmarkedFronts (Leads outer) := by
  intro front hfront
  cases hfront with
  | here => exact .inl rfl
  | inside opened _ =>
    obtain ⟨introduced⟩ := opened
    refine .inr ⟨_, _, rfl, fun hmark => ?_⟩
    have hnone := ElementType.ofByte?_sentinelByte
    rw [← hmark, ElementType.ofByte?_byte] at hnone
    cases hnone

/-- With some levels left, the guard trips in front of the types inside so many others. -/
theorem trips_decodeWithin (limit levels : Nat) :
    (decodeWithin limit levels).Trips limit (Leads levels) := by
  induction levels with
  | zero =>
    refine ⟨?_, ?_⟩
    · intro start error stop hrun _
      obtain ⟨rfl, rfl⟩ := Outcome.error.inj hrun
      exact ⟨rfl, [], .here, Cursor.passes_nil_iff.2 rfl⟩
    · intro start front place _ hpasses _
      exact ⟨start, rfl, hpasses.2 ▸ Nat.le_add_right _ _⟩
  | succ levels ih =>
    refine (trips_decodeWith (reaches_decodeWithin limit levels) ih
      (unmarkedFronts_leads levels)).congr fun bytes => ?_
    exact leads_succ_iff.symm

end TypeSig

/-! ## Signatures -/

/-- Behind the lead byte of a kind that has one of its own. -/
theorem Signature.trips_behind_lead {α : Type} {next : Decoder α} {fronts : List UInt8 → Prop}
    {kind : SignatureKind} {lead : UInt8} (hkind : kind.leads = [lead])
    (hnext : next.Trips limit fronts) :
    (decodeLead kind >>= fun _ => next).Trips limit fun bytes =>
      ∃ back, fronts back ∧ bytes = lead :: back := by
  refine (trips_behind (recognizes_decodeLead kind) (compatible_quiet.decodeLead kind)
    fun _ => hnext).congr fun bytes => ⟨?_, ?_⟩
  · rintro ⟨found, _, back, ⟨hfound, rfl⟩, hback, rfl⟩
    rw [hkind] at hfound
    obtain rfl := List.mem_singleton.1 hfound
    exact ⟨back, hback, rfl⟩
  · rintro ⟨back, hback, rfl⟩
    exact ⟨lead, [lead], back, ⟨hkind ▸ List.mem_singleton_self lead, rfl⟩, hback, rfl⟩

/-- The type of a property begins behind the number of its parameters, and these behind the type. -/
theorem Signature.trips_decodeWith_property
    (hreaches : inner.Reaches limit (TypeSig.Derives .wideEnough))
    (htrips : inner.Trips limit deeper) :
    (decodeWith inner .property).Trips limit (Joined (Opens .property) deeper) := by
  rw [decodeWith_property]
  refine (trips_behind (recognizes_decodeLead .property) (compatible_quiet.decodeLead .property)
    fun lead => trips_behind recognizes_decodeUnsigned compatible_quiet.decodeUnsigned
      fun count => trips_bind hreaches htrips fun type => trips_map
        (trips_list hreaches htrips count)
        (property (HeaderBit.isSet HeaderBit.hasThis lead) type)).congr fun bytes => ⟨?_, ?_⟩
  · rintro ⟨lead, _, _, ⟨hlead, rfl⟩, ⟨count, first, _, hcount, hlast, rfl⟩, rfl⟩
    rcases hlast with hlast | ⟨type, second, _, htype, ⟨third, last, hbegun, hlast, rfl⟩, rfl⟩
    · exact ⟨lead :: first, _, .property hlead hcount, hlast, rfl⟩
    · exact ⟨_, last, .propertyParam hlead hcount htype hbegun, hlast,
        by simp only [List.cons_append, List.nil_append, List.append_assoc]⟩
  · rintro ⟨_, last, hfront, hlast, rfl⟩
    cases hfront with
    | property led counted =>
      exact ⟨_, _, _, ⟨led, rfl⟩, ⟨_, _, _, counted, .inl hlast, rfl⟩, rfl⟩
    | propertyParam led counted derived begun =>
      exact ⟨_, _, _, ⟨led, rfl⟩, ⟨_, _, _, counted,
        .inr ⟨_, _, _, derived, ⟨_, last, begun, hlast, rfl⟩, rfl⟩, rfl⟩,
        by simp only [List.cons_append, List.nil_append, List.append_assoc]⟩

/-- The types of a signature begin where its kind has them. -/
theorem Signature.trips_decodeWith (hreaches : inner.Reaches limit (TypeSig.Derives .wideEnough))
    (htrips : inner.Trips limit deeper) (hunmarked : MethodSig.UnmarkedFronts deeper)
    (kind : SignatureKind) :
    (decodeWith inner kind).Trips limit (Joined (Opens kind) deeper) := by
  cases kind with
  | method =>
    refine (trips_map (MethodSig.trips_decodeWith hreaches htrips hunmarked) method).congr
      fun bytes => ⟨?_, ?_⟩
    · rintro ⟨front, last, hfront, hlast, rfl⟩
      exact ⟨front, last, .method hfront, hlast, rfl⟩
    · rintro ⟨_, last, hfront, hlast, rfl⟩
      cases hfront with
      | method method => exact ⟨_, last, method, hlast, rfl⟩
  | field =>
    refine (trips_behind_lead rfl (trips_map htrips field)).congr fun bytes => ⟨?_, ?_⟩
    · rintro ⟨last, hlast, rfl⟩
      exact ⟨_, last, .field, hlast, rfl⟩
    · rintro ⟨_, last, hfront, hlast, rfl⟩
      cases hfront with
      | field => exact ⟨last, hlast, rfl⟩
  | property => exact trips_decodeWith_property hreaches htrips
  | locals =>
    refine (trips_behind_lead rfl (trips_map
      (TypeSig.trips_decodeNonempty hreaches htrips .noLocals) locals)).congr fun bytes => ⟨?_, ?_⟩
    · rintro ⟨_, ⟨front, last, hbegun, hlast, rfl⟩, rfl⟩
      exact ⟨_, last, .locals hbegun, hlast, rfl⟩
    · rintro ⟨_, last, hfront, hlast, rfl⟩
      cases hfront with
      | locals begun => exact ⟨_, ⟨_, last, begun, hlast, rfl⟩, rfl⟩
  | typeSpec =>
    refine (trips_map htrips typeSpec).congr fun bytes => (joined_iff_of_empty fun front => ?_).symm
    constructor
    · rintro ⟨⟩
      rfl
    · rintro rfl
      exact .typeSpec
  | methodSpec =>
    refine (trips_behind_lead rfl (trips_map
      (TypeSig.trips_decodeNonempty hreaches htrips .noMethodArguments) methodSpec)).congr
      fun bytes => ⟨?_, ?_⟩
    · rintro ⟨_, ⟨front, last, hbegun, hlast, rfl⟩, rfl⟩
      exact ⟨_, last, .methodSpec hbegun, hlast, rfl⟩
    · rintro ⟨_, last, hfront, hlast, rfl⟩
      cases hfront with
      | methodSpec begun => exact ⟨_, ⟨_, last, begun, hlast, rfl⟩, rfl⟩

/-- The end of the blob trips over nothing. -/
theorem Decoder.quiet_finish (options : DecodeOptions) : (finish options).Quiet := by
  intro start error stop hrun
  obtain ⟨-, next, -, rfl⟩ := eq_of_run_finish_eq_error hrun
  simp [Error.kind]

/-- The guard trips in front of types inside as many others as the limit admits. -/
theorem Subject.trips_decode (options : DecodeOptions) (kind : SubjectKind) :
    (decode options kind).Trips options.limit (kind.Leads options.limit) := by
  have htype : (TypeSig.decode options).Trips options.limit (TypeSig.Leads options.limit) :=
    TypeSig.trips_decodeWithin _ _
  cases kind with
  | type => exact trips_map htype type
  | signature kind =>
    refine trips_map (trips_before ?_ fun whole => quiet_bind (quiet_finish options) fun _ =>
      quiet_pure whole) signature
    exact Signature.trips_decodeWith (TypeSig.reaches_decodeWithin _ _) htype
      (TypeSig.unmarkedFronts_leads _) kind

end SignatureBlob
