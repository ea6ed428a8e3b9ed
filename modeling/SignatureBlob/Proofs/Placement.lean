import SignatureBlob.Proofs.Blame

/-!
# Where decoders stop

A decoder that fails stays where the failed read began, and nothing around it moves it afterwards.
So the error and the place agree: bytes that are missing are missing there, a type that is nested
too deep begins there, and a byte that begins no type is the last one that was read. An encoding is
blamed at its first byte, which may lie before the place, but not before the start.

Nothing of this is kept by taking a read back, unless it failed over its first byte. The one read
that is taken back is that of a token, and it does.

Main statements: `Decoder.places_subject` (each reader) and `Parser.error_agrees_with_stop` (each
call of a session).
-/

namespace SignatureBlob

open Decoder

/-- How the error of a run from `start` agrees with the place where it stopped. -/
inductive Error.Placed (limit : Nat) (start stop : Cursor) : Error → Prop
  /-- Fewer bytes are ahead of the place than are needed there. -/
  | truncated {needed : Nat} (short : stop.remaining < needed) :
      Placed limit start stop (.truncated stop.position needed stop.remaining)
  /-- The encoding begins with a byte of the blob, between the start and the place. -/
  | encoding {offset : Nat} {observed : UInt8} {defect : Defect} (behind : start.position ≤ offset)
      (before : offset ≤ stop.position) (inside : offset < stop.length) :
      Placed limit start stop (.invalidEncoding offset observed defect)
  /-- The byte was read last, and it announces nothing. -/
  | elementType {offset : Nat} {byte : UInt8} (behind : start.position ≤ offset)
      (last : stop.position = offset + 1) (unknown : ElementType.ofByte? byte = none) :
      Placed limit start stop (.unknownElementType offset byte)
  /-- The type that is nested too deep begins at the place. -/
  | guard : Placed limit start stop (.maxDepthExceeded limit stop.position)

/-- An error that agrees with a place agrees with it from an earlier start too. -/
theorem Error.Placed.from_earlier {limit : Nat} {earlier start stop : Cursor} {error : Error}
    (h : error.Placed limit start stop) (hle : earlier.position ≤ start.position) :
    error.Placed limit earlier stop := by
  cases h with
  | truncated short => exact .truncated short
  | encoding behind before inside => exact .encoding (Nat.le_trans hle behind) before inside
  | elementType behind last unknown => exact .elementType (Nat.le_trans hle behind) last unknown
  | guard => exact .guard

namespace Decoder

variable {α β : Type} {limit : Nat}

/-- A decoder whose errors agree with the places where it stops. -/
def Places (limit : Nat) (decoder : Decoder α) : Prop :=
  ∀ start error stop, decoder.run start = .error error stop → error.Placed limit start stop

/-! ## The ways to put decoders together -/

/-- What does not fail has no error to place. -/
theorem places_pure (value : α) : (pure value : Decoder α).Places limit := nofun

/-- A sequence places its errors if its parts do and the first goes forward. -/
theorem places_bind {first : Decoder α} {next : α → Decoder β} (hadvances : first.Advances)
    (hfirst : first.Places limit) (hnext : ∀ value, (next value).Places limit) :
    (first >>= next).Places limit := by
  intro start error stop hrun
  rcases run_bind_eq_error_iff.1 hrun with hstop | ⟨value, middle, hmiddle, hstop⟩
  · exact hfirst start error stop hstop
  · obtain ⟨bytes, hpasses⟩ := hadvances start
    rw [hmiddle] at hpasses
    exact (hnext value middle error stop hstop).from_earlier (hpasses.2 ▸ Nat.le_add_right _ _)

/-- Missing bytes are told where they are missed, with what is left. -/
theorem places_bytes (count : Nat) : (bytes count).Places limit := by
  intro start error stop hrun
  obtain ⟨rfl, rfl, hshort⟩ := of_run_bytes_eq_error hrun
  exact .truncated hshort

/-- A verdict on bytes at `place`, some of which have been read when it comes. -/
theorem Ruled.placed {lead : UInt8} {spelled : List UInt8 → Prop} {next next' : Nat → Decoder α}
    (h : Ruled (fun _ decoder _ => decoder.Places limit) lead spelled next next')
    (place : Cursor) {start stop : Cursor} {error : Error} (hle : place.position ≤ start.position)
    (hinside : place.position < start.length)
    (hrun : (next place.position).run start = .error error stop) :
    error.Placed limit place stop := by
  cases h with
  | accept h => exact (h start error stop hrun).from_earlier hle
  | refuse blames encoded =>
    obtain ⟨rfl, rfl⟩ := Outcome.error.inj hrun
    cases blames with
    | encoding _ | emptyList _ _ => exact .encoding (Nat.le_refl _) hle hinside
    | elementType => cases encoded 0

/-- A look at the next byte, where what goes on agrees with the place of the look. -/
theorem places_look {next : Nat → UInt8 → Decoder α}
    (h : ∀ place lead ahead error stop,
      (next place lead).run ⟨place, lead :: ahead⟩ = .error error stop →
      error.Placed limit ⟨place, lead :: ahead⟩ stop) :
    (position >>= fun offset => peek >>= next offset).Places limit := by
  rintro ⟨place, ahead⟩ error stop hrun
  rw [run_bind_ok (run_position _)] at hrun
  cases ahead with
  | nil =>
    rw [run_bind_error (run_peek_nil place)] at hrun
    obtain ⟨rfl, rfl⟩ := Outcome.error.inj hrun
    exact .truncated Nat.one_pos
  | cons lead ahead => exact h place lead ahead error stop hrun

/-- A byte that is read, where what goes on agrees with the place of the byte. -/
theorem places_byte {next : Nat → UInt8 → Decoder α}
    (h : ∀ place lead ahead error stop,
      (next place lead).run ⟨place + 1, ahead⟩ = .error error stop →
      error.Placed limit ⟨place, lead :: ahead⟩ stop) :
    (position >>= fun offset => byte >>= next offset).Places limit := by
  rintro ⟨place, ahead⟩ error stop hrun
  rw [run_bind_ok (run_position _)] at hrun
  cases ahead with
  | nil =>
    rw [run_bind_error (run_byte_nil place)] at hrun
    obtain ⟨rfl, rfl⟩ := Outcome.error.inj hrun
    exact .truncated Nat.one_pos
  | cons lead ahead => exact h place lead ahead error stop hrun

/-- A read that is taken back has not moved, or it blames the byte that it goes back to. -/
theorem places_transaction {decoder : Decoder α} (hprompt : decoder.Prompt)
    (h : decoder.Places limit) : decoder.transaction.Places limit := by
  intro start error stop hrun
  obtain ⟨rfl, place, hstop⟩ := run_transaction_eq_error_iff.1 hrun
  rcases hprompt stop error place hstop with rfl | ⟨hahead, observed, defect, rfl⟩
  · exact h place error place hstop
  · refine .encoding (Nat.le_refl _) (Nat.le_refl _) ?_
    have hpos : 0 < stop.ahead.length := List.length_pos_iff.2 hahead
    simp only [Cursor.length, Cursor.remaining]
    omega

/-- Decoders that go forward and place their errors do so in all the ways in which readers are put
together. -/
theorem compatible_places (limit : Nat) :
    Compatible fun _ decoder _ => decoder.Advances ∧ decoder.Places limit where
  pure value := ⟨congruence_advances.pure value, places_pure value⟩
  bind hfirst hnext := ⟨advances_bind hfirst.1 fun value => (hnext value).1,
    places_bind hfirst.1 hfirst.2 fun value => (hnext value).2⟩
  bytes count := ⟨advances_bytes count, places_bytes count⟩
  look := by
    intro α next next' hmoves h
    refine ⟨congruence_advances.compatible.look hmoves fun lead =>
      (h lead).mono fun _ _ => And.left, ?_⟩
    refine places_look fun place lead ahead error stop hrun => ?_
    have hinside : place < (Cursor.mk place (lead :: ahead)).length :=
      Nat.lt_add_of_pos_right (Nat.succ_pos _)
    exact ((h lead).mono fun _ _ => And.right).placed ⟨place, lead :: ahead⟩
      (Nat.le_refl _) hinside hrun
  byte := by
    intro α next next' h
    refine ⟨congruence_advances.compatible.byte fun lead =>
      (h lead).mono fun _ _ => And.left, ?_⟩
    refine places_byte fun place lead ahead error stop hrun => ?_
    exact ((h lead).mono fun _ _ => And.right).placed ⟨place, lead :: ahead⟩
      (Nat.le_succ _) (Nat.lt_of_lt_of_le (Nat.lt_succ_self _) (Nat.le_add_right _ _)) hrun
  announced := by
    intro α next next' h
    have hadvances : (announced next).Advances :=
      @Compatible.announced _ congruence_advances.compatible _ _ next fun element => (h element).1
    refine ⟨hadvances, ?_⟩
    refine places_byte fun place lead ahead error stop hrun => ?_
    cases hlead : ElementType.ofByte? lead with
    | none =>
      rw [hlead] at hrun
      obtain ⟨rfl, rfl⟩ := Outcome.error.inj hrun
      exact .elementType (Nat.le_refl _) rfl hlead
    | some element =>
      rw [hlead] at hrun
      exact ((h element).2 _ error stop hrun).from_earlier (Nat.le_succ place)
  located := by
    intro α β decoder grammar next next' hrecognizes hmoves hdecoder h
    refine ⟨congruence_advances.compatible.located hrecognizes hmoves hdecoder.1 fun lead value =>
      (h lead value).mono fun _ _ => And.left, ?_⟩
    rw [located_bind_eq]
    refine places_look fun place lead ahead error stop hrun => ?_
    rcases run_bind_eq_error_iff.1 hrun with hstop | ⟨value, middle, hvalue, hstop⟩
    · exact hdecoder.2 _ error stop hstop
    · obtain ⟨bytes, -, hpasses⟩ := (hrecognizes _ _ _).1 hvalue
      have hmiddle := hmoves _ _ _ hvalue
      exact ((h lead value).mono fun _ _ => And.right).placed ⟨place, lead :: ahead⟩
        (Nat.le_of_lt hmiddle) (Nat.lt_of_lt_of_le hmiddle (Nat.le_add_right _ _)) hstop
  transaction hprompt h := ⟨advances_transaction h.1, places_transaction hprompt h.2⟩

/-! ## Types and signatures -/

/-- The error about trailing bytes is about the byte at which the cursor stands. -/
theorem places_finish (options : DecodeOptions) : (finish options).Places limit := by
  intro start error stop hrun
  obtain ⟨rfl, next, hnext, rfl⟩ := eq_of_run_finish_eq_error hrun
  refine .encoding (Nat.le_refl _) (Nat.le_refl _) ?_
  have hahead : stop.ahead ≠ [] := fun hnil => by rw [hnil] at hnext; cases hnext
  have hpos : 0 < stop.ahead.length := List.length_pos_iff.2 hahead
  simp only [Cursor.length, Cursor.remaining]
  omega

/-- The errors of every reader agree with the place where it stops. -/
theorem places_subject (options : DecodeOptions) (kind : SubjectKind) :
    (Subject.decode options kind).Places options.limit := by
  have hguard : (TypeSig.decodeWithin options.limit 0).Places options.limit := by
    intro start error stop hrun
    obtain ⟨rfl, rfl⟩ := Outcome.error.inj hrun
    exact .guard
  exact ((compatible_places options.limit).subject (fun _ => ⟨advances_guard _, hguard⟩)
    ⟨advances_finish options, places_finish options⟩ (Nat.le_refl options.limit) kind).2

end Decoder

/-! ## Errors in sessions -/

/-- What an error of each class says of the place where a parser of the blob is left, and of the
limit on nesting. There are no other classes. -/
def Error.AgreesWith (blob : List UInt8) (limit place : Nat) : Error → Prop
  | truncated offset needed remaining =>
    offset = place ∧ remaining = blob.length - place ∧ remaining < needed
  | invalidEncoding offset _ _ => offset < blob.length
  | unknownElementType offset byte =>
    place = offset + 1 ∧ blob[offset]? = some byte ∧ ∀ element : ElementType, element.byte ≠ byte
  | maxDepthExceeded reported offset => offset = place ∧ reported = limit

namespace Parser

/-- A parser of the blob after some calls, whatever came of them. -/
inductive Reached (options : DecodeOptions) (blob : List UInt8) : Parser → Prop
  | start : Reached options blob (.start blob)
  | call {parser : Parser} (kind : SubjectKind) (reached : Reached options blob parser) :
      Reached options blob (Parse.subject options kind parser).2

variable {options : DecodeOptions} {blob : List UInt8} {parser after : Parser}

/-- Whatever was called, no types are open afterwards and the cursor is in the blob. -/
theorem Reached.isIn (h : Reached options blob parser) :
    parser.nesting = 0 ∧ parser.cursor.IsIn blob := by
  induction h with
  | start => exact ⟨rfl, Nat.zero_le _, rfl⟩
  | @call parser kind reached ih =>
    obtain ⟨cursor, nesting⟩ := parser
    obtain ⟨rfl, hin⟩ := ih
    obtain ⟨bytes, hpasses⟩ := advances_subject options kind cursor
    rw [Parse.follows_subject options kind cursor]
    exact ⟨rfl, (hin.passes hpasses).1⟩

/-- Whatever was asked of a parser before, an error of a call is about a place that the call has
been at: not before its start, and not behind the place where it leaves the parser, which is in the
blob. Missing bytes and types that are nested too deep are told at this place, with what is left of
the blob and with the limit; a byte that begins no type stands right before it. -/
theorem error_agrees_with_stop {kind : SubjectKind} {error : Error}
    (hreached : Reached options blob parser)
    (hcall : Parse.subject options kind parser = (.error error, after)) :
    parser.cursor.position ≤ error.offset ∧ error.offset ≤ after.cursor.position ∧
    after.cursor.position ≤ blob.length ∧
    error.AgreesWith blob (max options.maxDepth 1) after.cursor.position := by
  obtain ⟨start, nesting⟩ := parser
  obtain ⟨rfl, hstart⟩ := hreached.isIn
  obtain ⟨bytes, hpasses⟩ := advances_subject options kind start
  rw [Parse.follows_subject options kind start] at hcall
  obtain ⟨hresult, rfl⟩ := Prod.mk.inj hcall
  -- the decoder fails with the error, and the parser is left where it stops
  cases hrun : (Subject.decode options kind).run start with
  | ok subject stop =>
    rw [hrun] at hresult
    cases hresult
  | error cause stop =>
    rw [hrun] at hresult hpasses
    dsimp only [Outcome.stop] at hpasses ⊢
    obtain rfl := Except.error.inj hresult
    obtain ⟨hin, hforward⟩ := hstart.passes hpasses
    have hlength : stop.length = blob.length := by
      have hle := hin.1
      simp only [Cursor.length, Cursor.remaining, hin.2, List.length_drop]
      omega
    have hremaining : stop.remaining = blob.length - stop.position := by
      rw [Cursor.remaining, hin.2, List.length_drop]
    cases places_subject options kind start cause stop hrun with
    | truncated short =>
      exact ⟨hforward, Nat.le_refl _, hin.1, rfl, hremaining, short⟩
    | encoding behind before inside =>
      rw [hlength] at inside
      exact ⟨behind, before, hin.1, inside⟩
    | guard => exact ⟨hforward, Nat.le_refl _, hin.1, rfl, rfl⟩
    | @elementType offset byte behind last unknown =>
      refine ⟨behind, last ▸ Nat.le_succ _, hin.1, last, ?_, fun element hbyte => ?_⟩
      · obtain ⟨front, target, htarget, hposition, hblame⟩ :=
          points_subject options kind start _ stop byte hrun rfl
        rcases hblame with hhead | ⟨-, ⟨_, -, hencoding⟩, -⟩
        · rwa [(hstart.passes htarget).1.2, ← hposition, List.head?_drop] at hhead
        · cases hencoding
      · rw [← hbyte, ElementType.ofByte?_byte] at unknown
        cases unknown

/-- A generic type is asked for behind another type, and one byte of its token is missing. -/
theorem error_agrees_with_stop_token :
    Parse.subject {} .type ⟨⟨1, [0x15, 0x12, 0x84]⟩, 0⟩ =
      (.error (.truncated 3 2 1), ⟨⟨3, [0x84]⟩, 0⟩) ∧
    1 ≤ 3 ∧ 3 ≤ 3 ∧ 3 ≤ 4 ∧ 3 = 3 ∧ 1 = 4 - 3 ∧ 1 < 2 := by
  have hreached : Reached {} [0x08, 0x15, 0x12, 0x84] ⟨⟨1, [0x15, 0x12, 0x84]⟩, 0⟩ :=
    .call .type .start
  have hcall : Parse.subject {} .type ⟨⟨1, [0x15, 0x12, 0x84]⟩, 0⟩ =
      (.error (.truncated 3 2 1), ⟨⟨3, [0x84]⟩, 0⟩) := rfl
  exact ⟨hcall, error_agrees_with_stop hreached hcall⟩

/-- The classes that tell the place are not all: another signature's first byte is refused as an
encoding. -/
theorem not_every_error_tells_stop :
    ¬ ∀ (options : DecodeOptions) (blob : List UInt8) (kind : SubjectKind) (parser after : Parser)
      (error : Error), Reached options blob parser →
      Parse.subject options kind parser = (.error error, after) →
      error.kind = .truncated ∨ error.kind = .maxDepthExceeded ∨
        error.kind = .unknownElementType := by
  intro h
  have hcall : Parse.subject {} (.signature .field) (.start [0x00]) =
      (.error (.invalidEncoding 0 0x00 (.wrongLead .field)), ⟨⟨1, []⟩, 0⟩) := rfl
  have hkind := h {} [0x00] _ _ _ _ .start hcall
  revert hkind
  decide

end Parser

end SignatureBlob
