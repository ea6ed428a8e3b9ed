import SignatureBlob.Proofs.Congruence

/-!
# Locality

Reading depends on no byte behind the place where it stops. A run on the first bytes of a blob is
compared with the run on all of it: it has the same value or the same error and stops at the same
place, unless it needs bytes that were cut off, and then it says so. A look at the next byte would
break this if nothing read the byte afterwards.

Main statements: `Decoder.local_subject` (all readers are local without the check at the end of a
blob) and `Subject.read_take_and_append` (what is cut off from a blob and what is added to it).
-/

namespace SignatureBlob

open Decoder

/-! ## Runs on the first bytes of a blob -/

/-- The same place in a blob that goes on with the bytes `rest`. -/
def Cursor.extend (cursor : Cursor) (rest : List UInt8) : Cursor :=
  ⟨cursor.position, cursor.ahead ++ rest⟩

/-- The beginning of a blob is the beginning of the longer blob. -/
theorem Cursor.start_extend (blob rest : List UInt8) :
    (Cursor.start blob).extend rest = .start (blob ++ rest) := rfl

/-- How an outcome from `start` compares with the outcome `whole` where the bytes `rest` were not
cut off. Only a read that needs some of these fails otherwise, and on the whole blob it has to
succeed before anything is returned. -/
inductive Outcome.Cut {α : Type} (start : Cursor) (rest : List UInt8) (whole : Outcome α) :
    Outcome α → Prop
  | ok {value : α} {stop : Cursor} (forward : start.position ≤ stop.position)
      (within : stop.length = start.length) (same : whole = .ok value (stop.extend rest)) :
      Cut start rest whole (.ok value stop)
  | error {error : Error} {stop : Cursor} (final : error.kind ≠ .truncated)
      (same : whole = .error error (stop.extend rest)) : Cut start rest whole (.error error stop)
  | truncated {offset needed : Nat} {stop : Cursor} (inside : offset ≤ start.length)
      (short : start.length < offset + needed)
      (taken : ∀ value place, whole = .ok value place → offset + needed ≤ place.position) :
      Cut start rest whole (.error (.truncated offset needed (start.length - offset)) stop)

namespace Decoder

variable {α β : Type}

/-- A decoder that depends on no byte behind the place where it stops. -/
def Local (decoder : Decoder α) : Prop :=
  ∀ start rest, Outcome.Cut start rest (decoder.run (start.extend rest)) (decoder.run start)

/-- A run that has come on from an earlier place is compared from there. -/
theorem Cut.from_earlier {start middle : Cursor} {rest : List UInt8} {whole outcome : Outcome α}
    (hforward : start.position ≤ middle.position) (hwithin : middle.length = start.length)
    (h : Outcome.Cut middle rest whole outcome) : Outcome.Cut start rest whole outcome := by
  cases h with
  | ok forward within same => exact .ok (Nat.le_trans hforward forward) (within.trans hwithin) same
  | error final same => exact .error final same
  | truncated inside short taken =>
    rw [hwithin] at inside short ⊢
    exact .truncated inside short taken

/-- A local decoder goes forward and stays in the blob. -/
theorem Local.forward {decoder : Decoder α} (h : decoder.Local) {start stop : Cursor} {value : α}
    (hrun : decoder.run start = .ok value stop) :
    start.position ≤ stop.position ∧ stop.length = start.length := by
  have hcut := h start []
  rw [hrun] at hcut
  cases hcut with
  | ok forward within _ => exact ⟨forward, within⟩

/-! ## The ways to put decoders together -/

/-- To return a value depends on no byte. -/
theorem local_pure (value : α) : (pure value : Decoder α).Local :=
  fun _ _ => .ok (Nat.le_refl _) rfl rfl

/-- To refuse a byte that was looked at is the same whatever follows. -/
theorem local_fail {error : Error} (h : error.observed?.isSome) : (fail error : Decoder α).Local :=
  fun _ _ => .error (Error.kind_ne_of_observed? h).1 rfl

/-- A sequence is local if its parts are. -/
theorem local_bind {first : Decoder α} {next : α → Decoder β} (hfirst : first.Local)
    (hnext : ∀ value, (next value).Local) : (first >>= next).Local := by
  intro start rest
  have hcut := hfirst start rest
  generalize hrun : first.run start = outcome at hcut
  cases hcut with
  | @ok value stop forward within same =>
    rw [run_bind_ok hrun, run_bind_ok same]
    exact Cut.from_earlier forward within (hnext value stop rest)
  | error final same =>
    rw [run_bind_error hrun]
    exact .error final (run_bind_error same _)
  | truncated inside short taken =>
    rw [run_bind_error hrun]
    refine .truncated inside short fun value place hwhole => ?_
    obtain ⟨middle, between, hmiddle, hvalue⟩ := run_bind_eq_ok_iff.1 hwhole
    exact Nat.le_trans (taken _ _ hmiddle) ((hnext middle).forward hvalue).1

/-- To take bytes depends on these bytes alone. -/
theorem local_bytes (count : Nat) : (bytes count).Local := by
  intro start rest
  obtain ⟨place, ahead⟩ := start
  by_cases hcount : count ≤ ahead.length
  · have hmore : count ≤ (ahead ++ rest).length := by
      rw [List.length_append]
      omega
    have hwhole : (bytes count).run ⟨place, ahead ++ rest⟩ =
        .ok (ahead.take count) ⟨place + count, ahead.drop count ++ rest⟩ := by
      rw [run_bytes_of_le hmore, List.take_append_of_le_length hcount,
        List.drop_append_of_le_length hcount]
    rw [run_bytes_of_le hcount]
    refine .ok (Nat.le_add_right place count) ?_ hwhole
    simp only [Cursor.length, Cursor.remaining, List.length_drop]
    omega
  · have hlength : (Cursor.mk place ahead).length - place = ahead.length := by
      simp [Cursor.length, Cursor.remaining]
    have hrun : (bytes count).run ⟨place, ahead⟩ = .error
        (.truncated place count ((Cursor.mk place ahead).length - place)) ⟨place, ahead⟩ := by
      rw [hlength]
      exact run_bytes_of_lt (by omega)
    rw [hrun]
    refine .truncated ?_ ?_ fun value stop hwhole => ?_
    · simp [Cursor.length]
    · simp only [Cursor.length, Cursor.remaining]
      omega
    · obtain ⟨_, ⟨htaken, rfl⟩, -, hposition⟩ := (recognizes_bytes count _ _ _).1 hwhole
      rw [hposition, htaken]
      exact Nat.le_refl _

/-- A byte that is looked at and then read. -/
theorem local_look {next : Nat → UInt8 → Decoder α}
    (hmoves : ∀ offset lead, (next offset lead).Moves)
    (h : ∀ offset lead, (next offset lead).Local) :
    (position >>= fun offset => peek >>= next offset).Local := by
  intro start rest
  obtain ⟨place, ahead⟩ := start
  cases ahead with
  | nil =>
    have hrun : (position >>= fun offset => peek >>= next offset).run ⟨place, []⟩ =
        .error (.truncated place 1 ((Cursor.mk place []).length - place)) ⟨place, []⟩ := by
      rw [run_bind_ok (run_position _), run_bind_error (run_peek_nil place)]
      simp [Cursor.length, Cursor.remaining]
    rw [hrun]
    refine .truncated (Nat.le_add_right _ _) (Nat.lt_succ_self _) fun value stop hwhole => ?_
    exact moves_look hmoves _ _ _ hwhole
  | cons lead ahead => exact h place lead ⟨place, lead :: ahead⟩ rest

/-- To take a byte and go on from it and its place is local if what follows is. -/
theorem local_byte {next : Nat → UInt8 → Decoder α}
    (h : ∀ offset lead, (next offset lead).Local) :
    (position >>= fun offset => byte >>= next offset).Local := by
  intro start rest
  obtain ⟨place, ahead⟩ := start
  cases ahead with
  | nil =>
    have hrun : (position >>= fun offset => byte >>= next offset).run ⟨place, []⟩ =
        .error (.truncated place 1 ((Cursor.mk place []).length - place)) ⟨place, []⟩ := by
      rw [run_bind_ok (run_position _), run_bind_error (run_byte_nil place)]
      simp [Cursor.length, Cursor.remaining]
    rw [hrun]
    refine .truncated (Nat.le_add_right _ _) (Nat.lt_succ_self _) fun value stop hwhole => ?_
    cases rest with
    | nil => cases hwhole
    | cons lead rest => exact ((h place lead).forward hwhole).1
  | cons lead ahead =>
    refine Cut.from_earlier (Nat.le_succ place) ?_ (h place lead ⟨place + 1, ahead⟩ rest)
    simp only [Cursor.length, Cursor.remaining, List.length_cons]
    omega

/-- Going back after an error depends on no more bytes than the reading did. -/
theorem local_transaction {decoder : Decoder α} (h : decoder.Local) :
    decoder.transaction.Local := by
  intro start rest
  have hcut := h start rest
  generalize hrun : decoder.run start = outcome at hcut
  cases hcut with
  | ok forward within same =>
    rw [run_transaction_eq_ok_iff.2 hrun]
    exact .ok forward within (run_transaction_eq_ok_iff.2 same)
  | error final same =>
    rw [run_transaction_of_error hrun]
    exact .error final (run_transaction_of_error same)
  | truncated inside short taken =>
    rw [run_transaction_of_error hrun]
    exact .truncated inside short fun value place hwhole =>
      taken value place (run_transaction_eq_ok_iff.1 hwhole)

/-- Local decoders stay local in all the ways in which readers are put together. -/
theorem congruence_local : Congruence fun _ decoder _ => decoder.Local where
  pure := local_pure
  bind := local_bind
  bytes := local_bytes
  look hmoves h := local_look hmoves fun offset lead =>
    (h lead).related_of_fail (fun _ => local_fail) offset
  byte h := local_byte fun offset lead => (h lead).related_of_fail (fun _ => local_fail) offset
  located := by
    intro α β decoder grammar next next' _ hmoves hlocal h
    have hnext : ∀ offset lead value, (next ⟨offset, lead, value⟩).Local := fun offset lead value =>
      (h lead value).related_of_fail (fun _ => local_fail) offset
    rw [located_bind_eq]
    refine local_look (fun offset lead => ?_) fun offset lead =>
      local_bind hlocal (hnext offset lead)
    intro start value stop hrun
    obtain ⟨middle, place, hmiddle, hvalue⟩ := run_bind_eq_ok_iff.1 hrun
    exact Nat.lt_of_lt_of_le (hmoves _ _ _ hmiddle) ((hnext offset lead middle).forward hvalue).1
  transaction := local_transaction

/-- Without the check at the end of a blob, all that a blob can be asked for is read locally. -/
theorem local_subject (maxDepth : Nat) (kind : SubjectKind) :
    (Subject.decode ⟨maxDepth, false⟩ kind).Local := by
  have hguard : ∀ limit, (TypeSig.decodeWithin limit 0).Local := fun limit start rest =>
    .error (by simp [Error.kind]) rfl
  have hfinish : (finish ⟨maxDepth, false⟩).Local := by
    intro start rest
    obtain ⟨place, ahead⟩ := start
    have hend : ∀ ahead, (finish ⟨maxDepth, false⟩).run ⟨place, ahead⟩ = .ok () ⟨place, ahead⟩ :=
      fun _ => run_finish_eq_ok_iff.2 ⟨rfl, fun h => absurd h Bool.false_ne_true⟩
    rw [hend]
    exact .ok (Nat.le_refl _) rfl (hend _)
  exact congruence_local.compatible.subject (fun _ => hguard _) hfinish (Nat.le_refl _) kind

/-! ## Cuts of a blob -/

variable {decoder : Decoder α} {blob : List UInt8} {value : α} {stop : Cursor}

/-- A local decoder stops in the blob or at its end. -/
theorem Local.position_le (h : decoder.Local) (hrun : decoder.run (.start blob) = .ok value stop) :
    stop.position ≤ blob.length := by
  have hlength := (h.forward hrun).2
  rw [Cursor.length_start] at hlength
  rw [← hlength, Cursor.length]
  exact Nat.le_add_right _ _

/-- The bytes that a value was read from are enough to read it, whatever follows them. -/
theorem Local.run_take_append (h : decoder.Local)
    (hrun : decoder.run (.start blob) = .ok value stop) (rest : List UInt8) :
    decoder.run (.start (blob.take stop.position ++ rest)) = .ok value ⟨stop.position, rest⟩ := by
  have hle := h.position_le hrun
  have hlength : (Cursor.start (blob.take stop.position)).length = stop.position := by
    rw [Cursor.length_start, List.length_take_of_le hle]
  have hcut := h (.start (blob.take stop.position)) (blob.drop stop.position)
  rw [Cursor.start_extend, List.take_append_drop, hrun] at hcut
  generalize htake : decoder.run (.start (blob.take stop.position)) = outcome at hcut
  cases hcut with
  | @ok _ stop' _ within same =>
    obtain ⟨rfl, hstop⟩ := Outcome.ok.inj same
    have hposition : stop'.position = stop.position := by
      rw [hstop]
      rfl
    -- nothing is left of the bytes that were read
    have hahead : stop'.ahead = [] := by
      rw [hlength, ← hposition, Cursor.length] at within
      exact List.length_eq_zero_iff.1 (Nat.add_left_cancel within)
    have hmore := h (.start (blob.take stop.position)) rest
    rw [htake] at hmore
    generalize hwhole : decoder.run ((Cursor.start (blob.take stop.position)).extend rest) = whole
      at hmore
    cases hmore with
    | ok _ _ same =>
      rw [← Cursor.start_extend, hwhole, same, Cursor.extend, hahead, hposition]
      rfl
  | error _ same => cases same
  | truncated _ short taken =>
    have henough := taken _ _ rfl
    rw [hlength] at short
    omega

/-- Fewer bytes than a value was read from are too few, and where they are missing is told. -/
theorem Local.run_take_of_lt (h : decoder.Local)
    (hrun : decoder.run (.start blob) = .ok value stop) {count : Nat}
    (hcount : count < stop.position) :
    ∃ offset needed place,
      decoder.run (.start (blob.take count)) =
        .error (.truncated offset needed (count - offset)) place ∧
      offset ≤ count ∧ count < offset + needed ∧ offset + needed ≤ stop.position := by
  have hle := h.position_le hrun
  have hlength : (Cursor.start (blob.take count)).length = count := by
    rw [Cursor.length_start, List.length_take_of_le (by omega)]
  have hcut := h (.start (blob.take count)) (blob.drop count)
  rw [Cursor.start_extend, List.take_append_drop, hrun] at hcut
  generalize htake : decoder.run (.start (blob.take count)) = outcome at hcut
  cases hcut with
  | @ok _ stop' _ within same =>
    obtain ⟨-, rfl⟩ := Outcome.ok.inj same
    rw [hlength, Cursor.length] at within
    have hposition : (stop'.extend (blob.drop count)).position = stop'.position := rfl
    omega
  | error _ same => cases same
  | truncated inside short taken =>
    rw [hlength] at inside short ⊢
    exact ⟨_, _, _, rfl, inside, short, taken _ _ rfl⟩

/-- An error that does not come from missing bytes stays whatever bytes are added. -/
theorem Local.run_append_of_error (h : decoder.Local) {error : Error}
    (hrun : decoder.run (.start blob) = .error error stop) (hfinal : error.kind ≠ .truncated)
    (rest : List UInt8) :
    decoder.run (.start (blob ++ rest)) = .error error ⟨stop.position, stop.ahead ++ rest⟩ := by
  have hcut := h (.start blob) rest
  rw [hrun] at hcut
  cases hcut with
  | error _ same => exact same
  | truncated => exact absurd rfl hfinal

end Decoder

/-! ## Cuts of signatures and types -/

/-- A signature of any kind, or a type, is decided by the bytes that it is read from: whatever
follows them it is read as the same, and each cut through them is reported as missing bytes, at a
place before the cut and up to a place behind it that was read before. What is refused for another
reason than missing bytes is refused alike whatever is added. -/
theorem Subject.read_take_and_append (maxDepth : Nat) (kind : SubjectKind) (blob : List UInt8) :
    (∀ subject stop, read ⟨maxDepth, false⟩ kind blob = .ok subject stop →
      (∀ rest, read ⟨maxDepth, false⟩ kind (blob.take stop.position ++ rest) =
        .ok subject ⟨stop.position, rest⟩) ∧
      ∀ count < stop.position, ∃ offset needed place,
        read ⟨maxDepth, false⟩ kind (blob.take count) =
          .error (.truncated offset needed (count - offset)) place ∧
        offset ≤ count ∧ count < offset + needed ∧ offset + needed ≤ stop.position) ∧
    ∀ error stop, read ⟨maxDepth, false⟩ kind blob = .error error stop →
      error.kind ≠ .truncated → ∀ rest,
      read ⟨maxDepth, false⟩ kind (blob ++ rest) =
        .error error ⟨stop.position, stop.ahead ++ rest⟩ := by
  have hlocal := local_subject maxDepth kind
  refine ⟨fun subject stop hread => ⟨?_, ?_⟩, ?_⟩
  · exact hlocal.run_take_append hread
  · exact fun count hcount => hlocal.run_take_of_lt hread hcount
  · exact fun error stop hread hfinal => hlocal.run_append_of_error hread hfinal

/-- A field whose token takes two bytes, cut inside the token, and one that begins no type. -/
theorem Subject.read_take_and_append_token :
    (read ⟨1, false⟩ (.signature .field) [0x06, 0x12, 0x84, 0xB1, 0x01] =
        .ok (.signature (.field (.classType (.ofParts .typeRef 300)))) ⟨4, [0x01]⟩ ∧
      ∃ offset needed place, read ⟨1, false⟩ (.signature .field) [0x06, 0x12, 0x84] =
          .error (.truncated offset needed (3 - offset)) place ∧
        offset ≤ 3 ∧ 3 < offset + needed ∧ offset + needed ≤ 4) ∧
    read ⟨1, false⟩ .type [0x41] = .error (.unknownElementType 0 0x41) ⟨1, []⟩ ∧
    read ⟨1, false⟩ .type ([0x41] ++ [0x01]) = .error (.unknownElementType 0 0x41) ⟨1, [0x01]⟩ := by
  have hfield := (read_take_and_append 1 (.signature .field) [0x06, 0x12, 0x84, 0xB1, 0x01]).1
    (.signature (.field (.classType (.ofParts .typeRef 300)))) ⟨4, [0x01]⟩ rfl
  have htype := (read_take_and_append 1 .type [0x41]).2 (.unknownElementType 0 0x41) ⟨1, []⟩ rfl
    (by decide) [0x01]
  exact ⟨⟨rfl, hfield.2 3 (by decide)⟩, rfl, htype⟩

end SignatureBlob
