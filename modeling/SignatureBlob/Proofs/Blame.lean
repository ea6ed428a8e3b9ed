import SignatureBlob.Proofs.Session

/-!
# The byte to blame

An error that blames a byte tells where it stands. For all rules but one this is the byte that the
decoder found there. A list that has to have a member is blamed for its number, which is zero; but
zero has wider forms too, and these do not begin with the byte zero.

Main statements: `Decoder.points_subject` (where each reader puts the blame) and
`Parser.observed_at_offset_or_wide_zero` (the blame in sessions).
-/

namespace SignatureBlob

open Grammar Decoder CompressedInt

/-- The error is about the place and blames the first byte there. Or it blames zero members of a
list for their number, and this begins there in a form of more than one byte. -/
def Error.PointsAt (error : Error) (place : Cursor) (byte : UInt8) : Prop :=
  error.offset = place.position ∧
    (place.ahead.head? = some byte ∨
      byte = 0 ∧ (∃ defect : Defect, defect.IsEmptyList ∧
        error = .invalidEncoding place.position 0 defect) ∧
      ∃ form : Form, form ≠ .one ∧ form.encode 0 <+: place.ahead)

namespace Decoder

variable {α β : Type}

/-- A decoder whose errors point at places ahead of its start. -/
def Points (decoder : Decoder α) : Prop :=
  ∀ start error stop byte, decoder.run start = .error error stop → error.observed? = some byte →
    ∃ bytes place, start.Passes bytes place ∧ error.PointsAt place byte

/-- An error without a byte to blame points nowhere. -/
theorem points_of_observed_eq_none {decoder : Decoder α}
    (h : ∀ start error stop, decoder.run start = .error error stop → error.observed? = none) :
    decoder.Points := by
  intro start error stop byte hrun hobserved
  rw [h start error stop hrun] at hobserved
  cases hobserved

/-- There is no error in a value that is given back. -/
theorem points_pure (value : α) : (pure value : Decoder α).Points :=
  points_of_observed_eq_none fun _ _ _ hrun => by cases hrun

/-- The errors of a sequence are those of its parts, and the first part goes forward. -/
theorem points_bind {first : Decoder α} {next : α → Decoder β} (hadvances : first.Advances)
    (hfirst : first.Points) (hnext : ∀ value, (next value).Points) : (first >>= next).Points := by
  intro start error stop byte hrun hobserved
  rcases run_bind_eq_error_iff.1 hrun with hstop | ⟨value, middle, hmiddle, hstop⟩
  · exact hfirst start error stop byte hstop hobserved
  · obtain ⟨front, hfront⟩ := hadvances start
    rw [hmiddle] at hfront
    obtain ⟨back, place, hback, hpoints⟩ := hnext value middle error stop byte hstop hobserved
    exact ⟨front ++ back, place, hfront.trans hback, hpoints⟩

/-- Where bytes are lacking, no byte is blamed. -/
theorem points_bytes (count : Nat) : (bytes count).Points := by
  refine points_of_observed_eq_none fun start error stop hrun => ?_
  rw [(of_run_bytes_eq_error hrun).1]
  rfl

/-- Going back changes nothing about the error. -/
theorem points_transaction {decoder : Decoder α} (h : decoder.Points) :
    decoder.transaction.Points := by
  intro start error stop byte hrun hobserved
  obtain ⟨-, place, hstop⟩ := run_transaction_eq_error_iff.1 hrun
  exact h start error place byte hstop hobserved

/-- The blame for a verdict falls on the first of the bytes that it is about. -/
theorem Blames.pointsAt {lead : UInt8} {spelled : List UInt8 → Prop} {error : Nat → Error}
    (h : Blames lead spelled error) {place : Cursor} {bytes : List UInt8} {byte : UInt8}
    (hlead : place.ahead.head? = some lead) (hspelled : spelled bytes)
    (hbytes : bytes <+: place.ahead) (hobserved : (error place.position).observed? = some byte) :
    (error place.position).PointsAt place byte := by
  cases h with
  | encoding | elementType =>
    obtain rfl := Option.some.inj hobserved
    exact ⟨rfl, .inl hlead⟩
  | @emptyList defect empty zero =>
    obtain rfl := Option.some.inj hobserved
    refine ⟨rfl, ?_⟩
    obtain ⟨form, rfl⟩ : ∃ form : Form, bytes = form.encode 0 := by
      cases zero bytes hspelled
      exact ⟨_, rfl⟩
    by_cases hform : form = .one
    · subst hform
      obtain ⟨rest, hrest⟩ := hbytes
      rw [← hrest]
      exact .inl rfl
    · exact .inr ⟨rfl, ⟨defect, empty, rfl⟩, form, hform, hbytes⟩

/-- A verdict on bytes at `place`, some of which have been read when it comes. -/
theorem Judged.points {lead : UInt8} {spelled : List UInt8 → Prop} {next next' : Nat → Decoder α}
    (h : Judged (fun _ decoder _ => decoder.Points) lead spelled next next')
    (place : Cursor) {start stop : Cursor} {bytes front : List UInt8} {error : Error} {byte : UInt8}
    (hlead : place.ahead.head? = some lead) (hspelled : spelled bytes)
    (hbytes : bytes <+: place.ahead) (hfront : place.Passes front start)
    (hrun : (next place.position).run start = .error error stop)
    (hobserved : error.observed? = some byte) :
    ∃ bytes target, place.Passes bytes target ∧ error.PointsAt target byte := by
  cases h with
  | accept h =>
    obtain ⟨back, target, hback, hpoints⟩ := h start error stop byte hrun hobserved
    exact ⟨front ++ back, target, hfront.trans hback, hpoints⟩
  | refuse blames =>
    obtain ⟨rfl, -⟩ := Outcome.error.inj hrun
    exact ⟨[], place, Cursor.passes_nil_iff.2 rfl,
      blames.pointsAt hlead hspelled hbytes hobserved⟩

/-- A look at the next byte, where what goes on points at places from there on. -/
theorem points_look {next : Nat → UInt8 → Decoder α}
    (h : ∀ place lead ahead error stop byte,
      (next place lead).run ⟨place, lead :: ahead⟩ = .error error stop →
      error.observed? = some byte → ∃ bytes target,
        (Cursor.mk place (lead :: ahead)).Passes bytes target ∧ error.PointsAt target byte) :
    (position >>= fun offset => peek >>= next offset).Points := by
  intro start error stop byte hrun hobserved
  obtain ⟨place, ahead⟩ := start
  rw [run_bind_ok (run_position _)] at hrun
  cases ahead with
  | nil =>
    rw [run_bind_error (run_peek_nil place)] at hrun
    obtain ⟨rfl, -⟩ := Outcome.error.inj hrun
    cases hobserved
  | cons lead ahead => exact h place lead ahead error stop byte hrun hobserved

/-- A verdict on a byte that was taken points at that byte, or the error comes from behind it. -/
theorem points_byte {next next' : Nat → UInt8 → Decoder α}
    (h : ∀ lead, Judged (fun _ decoder _ => decoder.Points) lead (fun bytes => bytes = [lead])
      (fun offset => next offset lead) (fun offset => next' offset lead)) :
    (position >>= fun offset => byte >>= next offset).Points := by
  intro start error stop observed hrun hobserved
  obtain ⟨place, ahead⟩ := start
  rw [run_bind_ok (run_position _)] at hrun
  cases ahead with
  | nil =>
    rw [run_bind_error (run_byte_nil place)] at hrun
    obtain ⟨rfl, -⟩ := Outcome.error.inj hrun
    cases hobserved
  | cons lead ahead =>
    have hfront : (Cursor.mk place (lead :: ahead)).Passes [lead] ⟨place + 1, ahead⟩ := ⟨rfl, rfl⟩
    exact (h lead).points ⟨place, lead :: ahead⟩ rfl rfl ⟨ahead, rfl⟩ hfront hrun hobserved

/-- Errors point ahead in all the ways in which readers are put together. -/
theorem congruence_points : Congruence fun _ decoder _ => decoder.Advances ∧ decoder.Points where
  pure value := ⟨congruence_advances.pure value, points_pure value⟩
  bind hfirst hnext := ⟨advances_bind hfirst.1 fun value => (hnext value).1,
    points_bind hfirst.1 hfirst.2 fun value => (hnext value).2⟩
  bytes count := ⟨advances_bytes count, points_bytes count⟩
  look := by
    intro α next next' hmoves h
    refine ⟨congruence_advances.look hmoves fun lead => (h lead).mono fun _ _ => And.left, ?_⟩
    refine points_look fun place lead ahead error stop byte => ?_
    exact ((h lead).mono fun _ _ => And.right).points ⟨place, lead :: ahead⟩ rfl rfl ⟨ahead, rfl⟩
      (Cursor.passes_nil_iff.2 rfl)
  byte h := ⟨congruence_advances.byte fun lead => (h lead).mono fun _ _ => And.left,
    points_byte fun lead => (h lead).mono fun _ _ => And.right⟩
  located := by
    intro α β decoder grammar next next' hrecognizes hmoves hdecoder h
    refine ⟨congruence_advances.located hrecognizes hmoves hdecoder.1 fun lead value =>
      (h lead value).mono fun _ _ => And.left, ?_⟩
    rw [located_bind_eq]
    refine points_look fun place lead ahead error stop byte hrun hobserved => ?_
    rcases run_bind_eq_error_iff.1 hrun with hstop | ⟨value, middle, hvalue, hstop⟩
    · exact hdecoder.2 _ error stop byte hstop hobserved
    · obtain ⟨bytes, hspelled, hpasses⟩ := (hrecognizes _ _ _).1 hvalue
      exact ((h lead value).mono fun _ _ => And.right).points ⟨place, lead :: ahead⟩ rfl hspelled
        ⟨middle.ahead, hpasses.1.symm⟩ hpasses hstop hobserved
  transaction h := ⟨advances_transaction h.1, points_transaction h.2⟩

/-- The check at the end of a blob blames the first byte that is left over. -/
theorem points_finish (options : DecodeOptions) : (finish options).Points := by
  intro start error stop byte hrun hobserved
  obtain ⟨-, next, hnext, rfl⟩ := eq_of_run_finish_eq_error hrun
  obtain rfl := Option.some.inj hobserved
  exact ⟨[], start, Cursor.passes_nil_iff.2 rfl, rfl, .inl hnext⟩

/-- The error of a subject points ahead of where the subject begins. -/
theorem points_subject (options : DecodeOptions) (kind : SubjectKind) :
    (Subject.decode options kind).Points := by
  have hguard : (TypeSig.decodeWithin options.limit 0).Points :=
    points_of_observed_eq_none fun start error stop hrun => by
      obtain ⟨rfl, -⟩ := Outcome.error.inj hrun
      rfl
  exact (congruence_points.compatible.subject (fun _ => ⟨advances_guard _, hguard⟩)
    ⟨advances_finish options, points_finish options⟩ (Nat.le_refl options.limit) kind).2

end Decoder

/-! ## The blame in sessions -/

namespace Parser

/-- Whatever was asked of a parser before, an error that blames a byte is about a place inside the
blob and the byte stands there, unless zero members of a list are blamed and the zero is spelled in
more than one byte. -/
theorem observed_at_offset_or_wide_zero (options : DecodeOptions) (kinds : List SubjectKind)
    (blob : List UInt8) {answer : Except Error Subject × Parser} {error : Error} {byte : UInt8}
    (hanswer : answer ∈ answers options kinds (.start blob)) (herror : answer.1 = .error error)
    (hobserved : error.observed? = some byte) :
    error.offset < blob.length ∧
      (blob[error.offset]? = some byte ∨
        byte = 0 ∧ (∃ defect : Defect, defect.IsEmptyList ∧
          error = .invalidEncoding error.offset 0 defect) ∧
        ∃ form : Form, form ≠ .one ∧ form.encode 0 <+: blob.drop error.offset) := by
  have hstart : (Cursor.start blob).IsIn blob := ⟨Nat.zero_le _, rfl⟩
  obtain ⟨kind, -, place, hplace, hresult⟩ := exists_run_of_mem_answers hstart hanswer
  obtain ⟨stop, hrun⟩ : ∃ stop, (Subject.decode options kind).run place = .error error stop := by
    rw [herror] at hresult
    cases hrun : (Subject.decode options kind).run place with
    | ok subject stop => simp [hrun, Outcome.result] at hresult
    | error cause stop =>
      simp only [hrun, Outcome.result, Except.error.injEq] at hresult
      exact ⟨stop, by rw [hresult]⟩
  obtain ⟨bytes, target, hpasses, hoffset, hblame⟩ :=
    points_subject options kind place error stop byte hrun hobserved
  obtain ⟨hin, -⟩ := hplace.passes hpasses
  rw [hin.2, ← hoffset] at hblame
  -- something stands at the offset in both cases
  have hahead : blob.drop error.offset ≠ [] := by
    intro hnil
    rw [hnil] at hblame
    rcases hblame with hhead | ⟨-, -, form, -, hzero⟩
    · cases hhead
    · exact form.encode_ne_nil 0 (List.prefix_nil.1 hzero)
  refine ⟨?_, ?_⟩
  · rw [ne_eq, List.drop_eq_nil_iff, Nat.not_le] at hahead
    exact hahead
  · rwa [List.head?_drop] at hblame

/-- A field is asked for behind a type, and no field begins with the byte there. -/
theorem observed_at_offset_or_wide_zero_field :
    (answers {} [.type, .signature .field] (.start [0x08, 0x41]))[1]? =
      some (.error (.invalidEncoding 1 0x41 (.wrongLead .field)), ⟨⟨2, []⟩, 0⟩) ∧
    ([0x08, 0x41] : List UInt8)[1]? = some 0x41 := by
  have hanswer : (answers {} [.type, .signature .field] (.start [0x08, 0x41]))[1]? =
      some (.error (.invalidEncoding 1 0x41 (.wrongLead .field)), ⟨⟨2, []⟩, 0⟩) := rfl
  have hblame := observed_at_offset_or_wide_zero {} [.type, .signature .field] [0x08, 0x41]
    (List.mem_of_getElem? hanswer) rfl rfl
  refine ⟨hanswer, ?_⟩
  rcases hblame.2 with hbyte | ⟨hzero, -⟩
  · exact hbyte
  · exact absurd hzero (by decide)

/-- The number of locals is zero in two bytes, of which none is the byte that is blamed at the
offset of the first. -/
theorem answers_locals_wide_zero :
    answers {} [.signature .locals] (.start [0x07, 0x80, 0x00]) =
      [(.error (.invalidEncoding 1 0 .noLocals), ⟨⟨3, []⟩, 0⟩)] ∧
    ([0x07, 0x80, 0x00] : List UInt8)[1]? = some 0x80 :=
  ⟨rfl, rfl⟩

end Parser

end SignatureBlob
