import SignatureBlob.Proofs.Locality
import SignatureBlob.Proofs.Progress

/-!
# Strictness

Strict decoding is decoding and then a look at the end of the blob. The look comes once, behind the
whole signature, so that it reports bytes behind the signature and nothing else: no reader of a part
of a signature raises its defect, the one of a function pointer included. As reading depends on no
byte behind the place where it stops, a blob that is accepted strictly is no proper front of another
one.

Main statements: `Decoder.untrailing_subject` (who raises the defect) and `Subject.read_strict`.
-/

namespace SignatureBlob

open Decoder

/-! ## The defect of bytes left over -/

/-- The error is that bytes are left over. -/
def Error.IsTrailing (error : Error) : Prop :=
  ∃ offset observed count, error = .invalidEncoding offset observed (.trailing count)

namespace Decoder

variable {α β : Type}

/-- A decoder that never fails for bytes left over. -/
def Untrailing (decoder : Decoder α) : Prop :=
  ∀ start error stop, decoder.run start = .error error stop → ¬ error.IsTrailing

/-- A sequence never fails for bytes left over if its parts never do. -/
theorem untrailing_bind {first : Decoder α} {next : α → Decoder β} (hfirst : first.Untrailing)
    (hnext : ∀ value, (next value).Untrailing) : (first >>= next).Untrailing := by
  intro start error stop hrun
  rcases run_bind_eq_error_iff.1 hrun with hstop | ⟨value, place, _, hstop⟩
  · exact hfirst start error stop hstop
  · exact hnext value place error stop hstop

/-- A verdict on bytes that were read is never about bytes left over. -/
theorem Judged.untrailing {lead : UInt8} {spelled : List UInt8 → Prop}
    {next next' : Nat → Decoder α}
    (h : Judged (fun _ decoder _ => decoder.Untrailing) lead spelled next next') (offset : Nat) :
    (next offset).Untrailing := by
  cases h with
  | accept h => exact h
  | refuse blames =>
    rintro start error stop hrun ⟨_, _, count, rfl⟩
    obtain ⟨hcause, -⟩ := Outcome.error.inj hrun
    cases blames with
    | encoding inside =>
      injection hcause with _ _ hdefect
      exact inside count hdefect
    | elementType => cases hcause
    | emptyList empty _ =>
      injection hcause with _ _ hdefect
      subst hdefect
      simp [Defect.IsEmptyList] at empty

/-- What fails only for lack of bytes has none left over. -/
theorem untrailing_of_truncated {decoder : Decoder α}
    (h : ∀ start error stop, decoder.run start = .error error stop → error.kind = .truncated) :
    decoder.Untrailing := by
  rintro start error stop hrun ⟨_, _, _, rfl⟩
  cases h start _ stop hrun

/-- A look may lack a byte, and no more. -/
theorem untrailing_peek : peek.Untrailing := by
  refine untrailing_of_truncated fun start error stop hrun => ?_
  rw [(of_run_peek_eq_error hrun).1]
  rfl

/-- So may a byte that is taken. -/
theorem untrailing_byte : byte.Untrailing := by
  refine untrailing_of_truncated fun start error stop hrun => ?_
  rw [(of_run_byte_eq_error hrun).1]
  rfl

/-- To take bytes may lack some of them. -/
theorem untrailing_bytes (count : Nat) : (bytes count).Untrailing := by
  refine untrailing_of_truncated fun start error stop hrun => ?_
  rw [(of_run_bytes_eq_error hrun).1]
  rfl

/-- Going back does not change what is wrong. -/
theorem untrailing_transaction {decoder : Decoder α} (h : decoder.Untrailing) :
    decoder.transaction.Untrailing := by
  intro start error stop hrun
  obtain ⟨-, place, hstop⟩ := run_transaction_eq_error_iff.1 hrun
  exact h start error place hstop

/-- No way in which readers are put together makes them fail for bytes left over. -/
theorem congruence_untrailing : Congruence fun _ decoder _ => decoder.Untrailing where
  pure _ _ _ _ := nofun
  bind := untrailing_bind
  bytes := untrailing_bytes
  look _ h := untrailing_bind (fun _ _ _ => nofun) fun offset =>
    untrailing_bind untrailing_peek fun lead => (h lead).untrailing offset
  byte h := untrailing_bind (fun _ _ _ => nofun) fun offset =>
    untrailing_bind untrailing_byte fun lead => (h lead).untrailing offset
  located := by
    intro α β decoder grammar next next' _ _ hdecoder h
    rw [located_bind_eq]
    exact untrailing_bind (fun _ _ _ => nofun) fun offset =>
      untrailing_bind untrailing_peek fun lead =>
        untrailing_bind hdecoder fun value => (h lead value).untrailing offset
  transaction := untrailing_transaction

/-- Without the check at the end of the blob nothing is refused for bytes left over, function
pointers at all depths included. -/
theorem untrailing_subject (maxDepth : Nat) (kind : SubjectKind) :
    (Subject.decode ⟨maxDepth, false⟩ kind).Untrailing := by
  have hguard : ∀ limit, (TypeSig.decodeWithin limit 0).Untrailing := by
    rintro limit start error stop hrun ⟨_, _, _, rfl⟩
    cases hrun
  have hfinish : (finish ⟨maxDepth, false⟩).Untrailing := by
    intro start error stop hrun
    have hend : (finish ⟨maxDepth, false⟩).run start = .ok () start :=
      run_finish_eq_ok_iff.2 ⟨rfl, nofun⟩
    rw [hend] at hrun
    cases hrun
  exact congruence_untrailing.compatible.subject (fun _ => hguard _) hfinish (Nat.le_refl _) kind

end Decoder

/-! ## Strict reading -/

namespace Subject

variable {maxDepth : Nat} {kind : SignatureKind} {blob : List UInt8}

/-- What the check at the end of a blob makes of an outcome. -/
def checked (outcome : Outcome Subject) : Outcome Subject :=
  match outcome with
  | .error cause stop => .error cause stop
  | .ok subject stop =>
    match stop.ahead with
    | [] => .ok subject stop
    | next :: _ => .error (.invalidEncoding stop.position next (.trailing stop.remaining)) stop

/-- The check accepts what leaves nothing ahead. -/
theorem checked_eq_ok_iff {outcome : Outcome Subject} {subject : Subject} {stop : Cursor} :
    checked outcome = .ok subject stop ↔ outcome = .ok subject stop ∧ stop.ahead = [] := by
  cases outcome with
  | error cause place => simp [checked]
  | ok other place =>
    obtain ⟨position, ahead⟩ := place
    cases ahead with
    | nil =>
      refine ⟨fun h => ⟨h, ?_⟩, And.left⟩
      obtain ⟨-, rfl⟩ := Outcome.ok.inj h
      rfl
    | cons next ahead =>
      constructor
      · rintro ⟨⟩
      · rintro ⟨h, hahead⟩
        obtain ⟨-, rfl⟩ := Outcome.ok.inj h
        cases hahead

/-- Behind the check an error is one from before, or something was left ahead. -/
theorem eq_error_or_of_checked {outcome : Outcome Subject} {error : Error} {stop : Cursor}
    (h : checked outcome = .error error stop) :
    outcome = .error error stop ∨ ∃ subject, outcome = .ok subject stop ∧ stop.ahead ≠ [] := by
  cases outcome with
  | error cause place => exact .inl h
  | ok subject place =>
    obtain ⟨position, ahead⟩ := place
    cases ahead with
    | nil => cases h
    | cons next ahead =>
      obtain ⟨-, rfl⟩ := Outcome.error.inj h
      exact .inr ⟨subject, rfl, List.cons_ne_nil next ahead⟩

/-- Strict reading is reading and then the check, for the types of a signature do not know of it. -/
theorem read_strict_eq_checked (maxDepth : Nat) (kind : SignatureKind) (blob : List UInt8) :
    read ⟨maxDepth, true⟩ (.signature kind) blob =
      checked (read ⟨maxDepth, false⟩ (.signature kind) blob) := by
  have hinner : TypeSig.decode ⟨maxDepth, true⟩ = TypeSig.decode ⟨maxDepth, false⟩ := rfl
  have hread : ∀ options, read options (.signature kind) blob =
      ((Signature.decodeWith (TypeSig.decode options) kind >>= fun whole =>
        finish options >>= fun _ => pure whole) >>= fun whole =>
          pure (.signature whole) : Decoder Subject).run (.start blob) := fun _ => rfl
  rw [hread, hread, hinner]
  cases hrun : (Signature.decodeWith (TypeSig.decode ⟨maxDepth, false⟩) kind).run (.start blob) with
  | error cause stop =>
    rw [run_bind_error (run_bind_error hrun _), run_bind_error (run_bind_error hrun _)]
    rfl
  | ok whole stop =>
    obtain ⟨place, ahead⟩ := stop
    simp only [bind_assoc]
    rw [run_bind_ok hrun, run_bind_ok hrun]
    cases ahead <;> rfl

/-- Reading stops inside the blob or at its end. -/
theorem ahead_eq_drop {subject : Subject} {stop : Cursor}
    (h : read ⟨maxDepth, false⟩ (.signature kind) blob = .ok subject stop) :
    stop.position ≤ blob.length ∧ stop.ahead = blob.drop stop.position := by
  obtain ⟨bytes, hbytes⟩ := advances_subject ⟨maxDepth, false⟩ (.signature kind) (.start blob)
  rw [show (decode ⟨maxDepth, false⟩ (.signature kind)).run (.start blob) = .ok subject stop from h,
    Outcome.stop] at hbytes
  obtain ⟨place, ahead⟩ := stop
  obtain ⟨hle, -, hahead⟩ := Cursor.passes_start_iff.1 hbytes
  exact ⟨hle, hahead⟩

/-- What is accepted strictly takes the whole blob. -/
theorem read_eq_ok_of_strict {subject : Subject} {stop : Cursor}
    (h : read ⟨maxDepth, true⟩ (.signature kind) blob = .ok subject stop) :
    read ⟨maxDepth, false⟩ (.signature kind) blob = .ok subject stop ∧
      stop.position = blob.length := by
  rw [read_strict_eq_checked, checked_eq_ok_iff] at h
  obtain ⟨hread, hnil⟩ := h
  obtain ⟨hle, hdrop⟩ := ahead_eq_drop hread
  rw [hnil] at hdrop
  exact ⟨hread, Nat.le_antisymm hle (List.drop_eq_nil_iff.1 hdrop.symm)⟩

/-- Strict reading of a signature of any kind fails as reading does, and with the same error at the
same place. Where reading stops at the end of the blob, it succeeds alike. Where reading stops
before, the next byte is refused and the bytes from there on are counted; nothing else is ever
refused for bytes left over, function pointers included. So no blob that is accepted strictly is a
proper front of another one. -/
theorem read_strict (maxDepth : Nat) (kind : SignatureKind) (blob : List UInt8) :
    (∀ error stop, read ⟨maxDepth, false⟩ (.signature kind) blob = .error error stop →
      read ⟨maxDepth, true⟩ (.signature kind) blob = .error error stop) ∧
    (∀ subject stop, read ⟨maxDepth, false⟩ (.signature kind) blob = .ok subject stop →
      stop.position ≤ blob.length ∧
      (stop.position = blob.length →
        read ⟨maxDepth, true⟩ (.signature kind) blob = .ok subject stop) ∧
      ∀ h : stop.position < blob.length,
        read ⟨maxDepth, true⟩ (.signature kind) blob =
          .error (.invalidEncoding stop.position blob[stop.position]
            (.trailing (blob.length - stop.position))) stop) ∧
    (∀ error stop, read ⟨maxDepth, true⟩ (.signature kind) blob = .error error stop →
      error.IsTrailing → ∃ subject,
        read ⟨maxDepth, false⟩ (.signature kind) blob = .ok subject stop ∧
        stop.position < blob.length) ∧
    ∀ longer subject stop other place,
      read ⟨maxDepth, true⟩ (.signature kind) blob = .ok subject stop →
      read ⟨maxDepth, true⟩ (.signature kind) longer = .ok other place →
      blob <+: longer → blob = longer := by
  refine ⟨?_, ?_, ?_, ?_⟩
  · intro error stop hread
    rw [read_strict_eq_checked, hread]
    rfl
  · intro subject stop hread
    obtain ⟨hle, hahead⟩ := ahead_eq_drop hread
    obtain ⟨place, ahead⟩ := stop
    dsimp only at hle hahead ⊢
    refine ⟨hle, ?_, ?_⟩
    · rintro rfl
      rw [List.drop_length] at hahead
      rw [read_strict_eq_checked, hread, hahead]
      rfl
    · intro hlt
      rw [List.drop_eq_getElem_cons hlt] at hahead
      have hremaining : (Cursor.mk place ahead).remaining = blob.length - place := by
        rw [Cursor.remaining, hahead, List.length_cons, List.length_drop]
        omega
      rw [read_strict_eq_checked, hread, ← hremaining, hahead]
      rfl
  · intro error stop hstrict htrailing
    rw [read_strict_eq_checked] at hstrict
    rcases eq_error_or_of_checked hstrict with hread | ⟨subject, hread, hmore⟩
    · exact absurd htrailing (untrailing_subject maxDepth _ _ _ _ hread)
    · obtain ⟨hle, hdrop⟩ := ahead_eq_drop hread
      refine ⟨subject, hread, Nat.lt_of_le_of_ne hle ?_⟩
      intro hend
      rw [hend, List.drop_length] at hdrop
      exact hmore hdrop
  · rintro longer subject stop other place hstrict hstrict' ⟨rest, rfl⟩
    obtain ⟨hread, hend⟩ := read_eq_ok_of_strict hstrict
    obtain ⟨hread', hend'⟩ := read_eq_ok_of_strict hstrict'
    -- the longer blob is read no further than the shorter one, and yet to its end
    have hmore := (local_subject maxDepth (.signature kind)).run_take_append hread rest
    rw [hend, List.take_length] at hmore
    have hplace : place.position = blob.length := by
      have hsame := hread'.symm.trans hmore
      rw [(Outcome.ok.inj hsame).2]
    rw [hplace] at hend'
    exact List.IsPrefix.eq_of_length (List.prefix_append blob rest) hend'

/-- A method with a function pointer before its last parameter, with and without two more bytes, and
a field that is refused before its end. -/
theorem read_strict_functionPointer :
    read ⟨4, true⟩ (.signature .method) [0x00, 0x02, 0x01, 0x1B, 0x00, 0x00, 0x01, 0x08] =
      .ok (.signature (.method ⟨{}, .primitive .void,
        [.functionPointer {} (.primitive .void) [], .primitive .int32]⟩)) ⟨8, []⟩ ∧
    read ⟨4, true⟩ (.signature .method)
        [0x00, 0x02, 0x01, 0x1B, 0x00, 0x00, 0x01, 0x08, 0xFF, 0x01] =
      .error (.invalidEncoding 8 0xFF (.trailing 2)) ⟨8, [0xFF, 0x01]⟩ ∧
    (∃ subject, read ⟨4, false⟩ (.signature .method)
        [0x00, 0x02, 0x01, 0x1B, 0x00, 0x00, 0x01, 0x08, 0xFF, 0x01] =
      .ok subject ⟨8, [0xFF, 0x01]⟩ ∧ 8 < 10) ∧
    (¬ ∃ other place, read ⟨4, true⟩ (.signature .method)
        [0x00, 0x02, 0x01, 0x1B, 0x00, 0x00, 0x01, 0x08, 0xFF, 0x01] = .ok other place) ∧
    read ⟨4, true⟩ (.signature .field) [0x06, 0x41, 0x00] =
      .error (.unknownElementType 1 0x41) ⟨2, [0x00]⟩ := by
  have hwhole := (read_strict 4 .method [0x00, 0x02, 0x01, 0x1B, 0x00, 0x00, 0x01, 0x08]).2.1 _ _
    rfl
  have hmore := (read_strict 4 .method
    [0x00, 0x02, 0x01, 0x1B, 0x00, 0x00, 0x01, 0x08, 0xFF, 0x01]).2.1 _ _ rfl
  have htrailing := (read_strict 4 .method
    [0x00, 0x02, 0x01, 0x1B, 0x00, 0x00, 0x01, 0x08, 0xFF, 0x01]).2.2.1 _ _ rfl ⟨_, _, _, rfl⟩
  refine ⟨hwhole.2.1 rfl, hmore.2.2 (by decide), htrailing, ?_, ?_⟩
  · rintro ⟨other, place, hother⟩
    have heq := (read_strict 4 .method [0x00, 0x02, 0x01, 0x1B, 0x00, 0x00, 0x01, 0x08]).2.2.2
      [0x00, 0x02, 0x01, 0x1B, 0x00, 0x00, 0x01, 0x08, 0xFF, 0x01] _ _ other place
      (hwhole.2.1 rfl) hother ⟨[0xFF, 0x01], rfl⟩
    exact absurd heq (by decide)
  · exact (read_strict 4 .field [0x06, 0x41, 0x00]).1 _ _ rfl

end Subject

end SignatureBlob
