import SignatureBlob.Proofs.Guard
import SignatureBlob.Proofs.Session

/-!
# The limit on nesting

How deep types may be nested decides only whether the guard trips, and where. Each level takes a
byte at least, so a limit beyond the length of the blob never matters. A smaller limit changes
nothing as long as the types of the subject keep to it, and otherwise the guard trips over the first
type that does not.

The parser that counts the types that are open answers in the same way.

Main statements: `Subject.lt_depth_iff_exists_hasTypeAt`, `Subject.read_of_limit` and
`Parse.subject_of_limit`.
-/

namespace SignatureBlob

open Grammar Decoder

/-! ## Success within a limit -/

namespace Subject

variable {kind : SubjectKind} {blob : List UInt8} {maxDepth deep : Nat} {subject : Subject}
  {start stop : Cursor}

/-- A bare type is read exactly from the bytes of a type that keeps to the limit. -/
theorem run_decode_type_eq_ok_iff {options : DecodeOptions} :
    (decode options .type).run start = .ok subject stop ↔
      ∃ type, subject = .type type ∧ type.depth ≤ options.limit ∧
        ∃ bytes, type.Derives .wideEnough bytes ∧ start.Passes bytes stop := by
  simp only [decode, run_bind_eq_ok_iff, TypeSig.run_decode_eq_ok_iff, run_pure, Outcome.ok.injEq]
  constructor
  · rintro ⟨type, place, ⟨bytes, ⟨htype, hdepth⟩, hbytes⟩, rfl, rfl⟩
    exact ⟨type, rfl, hdepth, bytes, htype, hbytes⟩
  · rintro ⟨type, rfl, hdepth, bytes, htype, hbytes⟩
    exact ⟨type, stop, ⟨bytes, ⟨htype, hdepth⟩, hbytes⟩, rfl, rfl⟩

/-- A signature is read exactly from the bytes of one of its kind that keeps to the limit. -/
theorem run_decode_signature_eq_ok_iff {kind : SignatureKind} :
    (decode ⟨maxDepth, false⟩ (.signature kind)).run start = .ok subject stop ↔
      ∃ whole, subject = .signature whole ∧ whole.depth ≤ max maxDepth 1 ∧
        ∃ bytes, (whole.kind = kind ∧ whole.Derives .wideEnough bytes) ∧
          start.Passes bytes stop := by
  simp only [decode, run_bind_eq_ok_iff, Signature.run_decode_eq_ok_iff, run_pure,
    Outcome.ok.injEq, Bool.false_eq_true, false_imp_iff, and_true]
  constructor
  · rintro ⟨whole, place, ⟨bytes, ⟨hkind, hwhole, hdepth⟩, hbytes⟩, rfl, rfl⟩
    exact ⟨whole, rfl, hdepth, bytes, ⟨hkind, hwhole⟩, hbytes⟩
  · rintro ⟨whole, rfl, hdepth, bytes, ⟨hkind, hwhole⟩, hbytes⟩
    exact ⟨whole, stop, ⟨bytes, ⟨hkind, hwhole, hdepth⟩, hbytes⟩, rfl, rfl⟩

/-- Of what is read with one limit, another limit asks only that it is kept to. -/
theorem run_decode_eq_ok_iff_depth_le
    (h : (decode ⟨deep, false⟩ kind).run start = .ok subject stop) (maxDepth : Nat) :
    (decode ⟨maxDepth, false⟩ kind).run start = .ok subject stop ↔
      subject.depth ≤ max maxDepth 1 := by
  cases kind with
  | type =>
    obtain ⟨type, rfl, -, hbytes⟩ := run_decode_type_eq_ok_iff.1 h
    rw [run_decode_type_eq_ok_iff]
    constructor
    · rintro ⟨_, ⟨⟩, hdepth, -⟩
      exact hdepth
    · intro hdepth
      exact ⟨type, rfl, hdepth, hbytes⟩
  | signature kind =>
    obtain ⟨whole, rfl, -, hbytes⟩ := run_decode_signature_eq_ok_iff.1 h
    rw [run_decode_signature_eq_ok_iff]
    constructor
    · rintro ⟨_, ⟨⟩, hdepth, -⟩
      exact hdepth
    · intro hdepth
      exact ⟨whole, rfl, hdepth, hbytes⟩

/-! ## Where the guard trips -/

/-- Where types begin inside as many others as a limit admits, the guard has tripped before. -/
theorem tripsBy_of_hasTypeAt {offset : Nat} (h : kind.HasTypeAt blob (max maxDepth 1) offset) :
    TripsBy (max maxDepth 1) (decode ⟨maxDepth, false⟩ kind) (.start blob)
      ⟨offset, blob.drop offset⟩ := by
  obtain ⟨type, bytes, htype, rest, hrest⟩ := h.derives
  obtain ⟨lead, tail, rfl, hlead⟩ :=
    TypeSig.unmarked_derivesWith _ _ _ _ (TypeSig.derives_iff.1 htype)
  have hoffset : offset ≤ blob.length := by
    apply Nat.le_of_not_lt
    intro hlt
    rw [List.drop_eq_nil_of_le (Nat.le_of_lt hlt)] at hrest
    cases hrest
  exact (trips_decode ⟨maxDepth, false⟩ kind).complete h.leads
    (Cursor.passes_start_iff.2 ⟨hoffset, rfl, rfl⟩) ⟨lead, tail ++ rest, hrest.symm, hlead⟩

/-- A limit beyond the length of the blob is never reached. -/
theorem read_error_kind_ne (hdeep : blob.length < deep) {error : Error}
    (h : read ⟨deep, false⟩ kind blob = .error error stop) : error.kind ≠ .maxDepthExceeded := by
  intro hkind
  obtain ⟨-, front, hfront, hahead, -⟩ := (trips_decode ⟨deep, false⟩ kind).sound h hkind
  have hlength : (max deep 1) ≤ front.length := SubjectKind.Leads.le_length hfront
  have hblob : blob.length = front.length + stop.ahead.length := by
    rw [← List.length_append, ← hahead]
    rfl
  omega

/-- With fewer levels the guard trips over the first type that begins inside as many others as the
limit admits, or nothing changes. -/
theorem read_eq_or_trips (hle : maxDepth ≤ deep)
    (h : read ⟨deep, false⟩ kind blob = .ok subject stop) :
    read ⟨maxDepth, false⟩ kind blob = .ok subject stop ∨ ∃ offset < stop.position,
      read ⟨maxDepth, false⟩ kind blob =
        .error (.maxDepthExceeded (max maxDepth 1) offset) ⟨offset, blob.drop offset⟩ ∧
      kind.HasTypeAt blob (max maxDepth 1) offset ∧
      ∀ other, kind.HasTypeAt blob (max maxDepth 1) other → offset ≤ other := by
  have hshallow := agrees_decode hle kind (.start blob)
  rw [show (decode ⟨deep, false⟩ kind).run (.start blob) = .ok subject stop from h] at hshallow
  generalize hrun : (decode ⟨maxDepth, false⟩ kind).run (.start blob) = outcome at hshallow
  cases hshallow with
  | same => exact .inl hrun
  | @trips place hread =>
    obtain ⟨type, bytes, behind, htype, hbytes, hbehind⟩ := hread subject stop rfl
    obtain ⟨-, front, hfront, hpasses⟩ :=
      (trips_decode ⟨maxDepth, false⟩ kind).sound hrun rfl
    obtain ⟨-, rfl, hahead⟩ := Cursor.passes_start_iff.1 hpasses
    refine .inr ⟨place.position, ?_, ?_, ⟨hfront, type, bytes, htype, ?_⟩, fun other hother => ?_⟩
    · obtain ⟨lead, tail, rfl, -⟩ :=
        TypeSig.unmarked_derivesWith _ _ _ _ (TypeSig.derives_iff.1 htype)
      have hposition := hbytes.2
      rw [List.length_cons] at hposition
      omega
    · rw [← hahead]
      exact hrun
    · rw [← hahead, hbytes.1]
      exact List.prefix_append _ _
    · obtain ⟨first, hfirst, hle⟩ := tripsBy_of_hasTypeAt hother
      rw [hrun] at hfirst
      rwa [(Outcome.error.inj hfirst).2]

/-- A subject has types inside so many others exactly if it is that deep. -/
theorem lt_depth_iff_exists_hasTypeAt (h : read ⟨deep, false⟩ kind blob = .ok subject stop)
    {outer : Nat} (houter : 0 < outer) :
    outer < subject.depth ↔ ∃ offset, kind.HasTypeAt blob outer offset := by
  have hlimit : max outer 1 = outer := Nat.max_eq_left houter
  have hkept := run_decode_eq_ok_iff_depth_le h outer
  rw [hlimit] at hkept
  constructor
  · intro hdepth
    have hdeep : subject.depth ≤ max deep 1 := (run_decode_eq_ok_iff_depth_le h deep).1 h
    have hle : outer ≤ deep := by omega
    rcases read_eq_or_trips hle h with hok | ⟨offset, -, -, hbegins, -⟩
    · exact absurd hdepth (Nat.not_lt_of_le (hkept.1 hok))
    · rw [hlimit] at hbegins
      exact ⟨offset, hbegins⟩
  · rintro ⟨offset, hbegins⟩
    rw [← hlimit] at hbegins
    obtain ⟨place, htrips, -⟩ := tripsBy_of_hasTypeAt hbegins
    apply Nat.lt_of_not_le
    intro hle
    rw [hkept.2 hle] at htrips
    cases htrips

/-- More levels never change what a limit has let pass. -/
theorem read_eq_of_never_exceeds {more : Nat} (hle : maxDepth ≤ more)
    (h : ∀ limit offset place,
      read ⟨maxDepth, false⟩ kind blob ≠ .error (.maxDepthExceeded limit offset) place) :
    read ⟨more, false⟩ kind blob = read ⟨maxDepth, false⟩ kind blob := by
  have hshallow := agrees_decode hle kind (.start blob)
  generalize hrun : (decode ⟨maxDepth, false⟩ kind).run (.start blob) = outcome at hshallow
  cases hshallow with
  | same => exact hrun.symm
  | trips => exact absurd hrun (h _ _ _)

/-- Below the depth of the subject the guard trips over the first type that is too deep. -/
theorem read_trips_of_lt_depth (h : read ⟨deep, false⟩ kind blob = .ok subject stop)
    (hdepth : max maxDepth 1 < subject.depth) :
    ∃ offset < stop.position,
      read ⟨maxDepth, false⟩ kind blob =
        .error (.maxDepthExceeded (max maxDepth 1) offset) ⟨offset, blob.drop offset⟩ ∧
      kind.HasTypeAt blob (max maxDepth 1) offset ∧
      ∀ other, kind.HasTypeAt blob (max maxDepth 1) other → offset ≤ other := by
  have hnot : ¬ read ⟨maxDepth, false⟩ kind blob = .ok subject stop := fun hok =>
    Nat.not_lt_of_le ((run_decode_eq_ok_iff_depth_le h maxDepth).1 hok) hdepth
  have hkept : subject.depth ≤ max deep 1 := (run_decode_eq_ok_iff_depth_le h deep).1 h
  have hle : maxDepth ≤ deep := by omega
  exact (read_eq_or_trips hle h).resolve_left hnot

/-- What fails with levels enough fails alike under each limit, or the guard trips. -/
theorem read_error_or_exceeds (hdeep : blob.length < deep) {error : Error}
    (h : read ⟨deep, false⟩ kind blob = .error error stop) (maxDepth : Nat) :
    read ⟨maxDepth, false⟩ kind blob = .error error stop ∨ ∃ offset place,
      read ⟨maxDepth, false⟩ kind blob =
        .error (.maxDepthExceeded (max maxDepth 1) offset) place := by
  rcases Nat.le_total maxDepth deep with hle | hle
  · have hshallow := agrees_decode hle kind (.start blob)
    generalize hrun : (decode ⟨maxDepth, false⟩ kind).run (.start blob) = outcome at hshallow
    cases hshallow with
    | same => exact .inl (hrun.trans h)
    | trips => exact .inr ⟨_, _, hrun⟩
  · refine .inl ((read_eq_of_never_exceeds hle fun limit offset place htrips => ?_).trans h)
    exact read_error_kind_ne hdeep htrips rfl

/-- The limit on nesting matters exactly to subjects that go beyond it, and more levels never change
what a limit has let pass. -/
theorem read_of_limit (kind : SubjectKind) (blob : List UInt8) (deep : Nat)
    (hdeep : blob.length < deep) :
    (∀ error stop, read ⟨deep, false⟩ kind blob = .error error stop →
      error.kind ≠ .maxDepthExceeded) ∧
    (∀ subject stop, read ⟨deep, false⟩ kind blob = .ok subject stop → ∀ maxDepth,
      (subject.depth ≤ max maxDepth 1 →
        read ⟨maxDepth, false⟩ kind blob = .ok subject stop) ∧
      (max maxDepth 1 < subject.depth → ∃ offset < stop.position,
        read ⟨maxDepth, false⟩ kind blob =
          .error (.maxDepthExceeded (max maxDepth 1) offset) ⟨offset, blob.drop offset⟩ ∧
        kind.HasTypeAt blob (max maxDepth 1) offset ∧
        ∀ other, kind.HasTypeAt blob (max maxDepth 1) other → offset ≤ other)) ∧
    (∀ error stop, read ⟨deep, false⟩ kind blob = .error error stop → ∀ maxDepth,
      read ⟨maxDepth, false⟩ kind blob = .error error stop ∨ ∃ offset place,
        read ⟨maxDepth, false⟩ kind blob =
          .error (.maxDepthExceeded (max maxDepth 1) offset) place) ∧
    ∀ maxDepth more, maxDepth ≤ more →
      (∀ limit offset place,
        read ⟨maxDepth, false⟩ kind blob ≠ .error (.maxDepthExceeded limit offset) place) →
      read ⟨more, false⟩ kind blob = read ⟨maxDepth, false⟩ kind blob := by
  exact ⟨fun _ _ => read_error_kind_ne hdeep,
    fun _ _ hread maxDepth =>
      ⟨(run_decode_eq_ok_iff_depth_le hread maxDepth).2, read_trips_of_lt_depth hread⟩,
    fun _ _ => read_error_or_exceeds hdeep, fun _ _ => read_eq_of_never_exceeds⟩

/-- With two levels the guard trips over the element of an array that a pointer points to. -/
theorem read_of_limit_pointer :
    read ⟨4, false⟩ .type [0x0F, 0x1D, 0x08] =
      .ok (.type (.pointer (.vector (.primitive .int32)))) ⟨3, []⟩ ∧
    read ⟨2, false⟩ .type [0x0F, 0x1D, 0x08] = .error (.maxDepthExceeded 2 2) ⟨2, [0x08]⟩ ∧
    SubjectKind.type.HasTypeAt [0x0F, 0x1D, 0x08] 2 2 := by
  have hread : read ⟨4, false⟩ .type [0x0F, 0x1D, 0x08] =
      .ok (.type (.pointer (.vector (.primitive .int32)))) ⟨3, []⟩ := rfl
  have htrips : read ⟨2, false⟩ .type [0x0F, 0x1D, 0x08] =
      .error (.maxDepthExceeded 2 2) ⟨2, [0x08]⟩ := rfl
  obtain ⟨-, hok, -, -⟩ := read_of_limit .type [0x0F, 0x1D, 0x08] 4 (by decide)
  obtain ⟨offset, -, hfirst, hbegins, -⟩ := (hok _ _ hread 2).2 (by decide)
  obtain ⟨herror, -⟩ := Outcome.error.inj (hfirst.symm.trans htrips)
  obtain rfl : offset = 2 := (Error.maxDepthExceeded.inj herror).2
  exact ⟨hread, htrips, hbegins⟩

end Subject

/-! ## The limit and the count of open types -/

namespace Parse

variable {options : DecodeOptions} {kind : SubjectKind} {blob : List UInt8} {after : Parser}

/-- A new parser answers as the blob is read, and stands where the reading stopped. -/
theorem subject_start (options : DecodeOptions) (kind : SubjectKind) (blob : List UInt8) :
    subject options kind (.start blob) =
      ((Subject.read options kind blob).result, ⟨(Subject.read options kind blob).stop, 0⟩) :=
  follows_subject options kind (.start blob)

/-- A new parser answers with a subject exactly if the blob is read as it. -/
theorem subject_start_eq_ok_iff {value : Subject} :
    subject options kind (.start blob) = (.ok value, after) ↔
      Subject.read options kind blob = .ok value after.cursor ∧ after.nesting = 0 := by
  obtain ⟨cursor, nesting⟩ := after
  rw [subject_start, Prod.mk.injEq, Parser.mk.injEq, @eq_comm Nat 0]
  cases Subject.read options kind blob <;> simp [Outcome.result, Outcome.stop, and_assoc]

/-- A new parser answers with an error exactly if reading the blob fails so. -/
theorem subject_start_eq_error_iff {error : Error} :
    subject options kind (.start blob) = (.error error, after) ↔
      Subject.read options kind blob = .error error after.cursor ∧ after.nesting = 0 := by
  obtain ⟨cursor, nesting⟩ := after
  rw [subject_start, Prod.mk.injEq, Parser.mk.injEq, @eq_comm Nat 0]
  cases Subject.read options kind blob <;> simp [Outcome.result, Outcome.stop, and_assoc]

/-- A parser that counts the types that are open tells of the limit as the decoder does: it matters
exactly to subjects that go beyond it, the guard trips over the first type that is too deep, and
more levels never change what a limit has let pass. No type is open behind any answer. -/
theorem subject_of_limit (kind : SubjectKind) (blob : List UInt8) (deep : Nat)
    (hdeep : blob.length < deep) :
    (∀ error after, subject ⟨deep, false⟩ kind (.start blob) = (.error error, after) →
      error.kind ≠ .maxDepthExceeded) ∧
    (∀ value after, subject ⟨deep, false⟩ kind (.start blob) = (.ok value, after) → ∀ maxDepth,
      (value.depth ≤ max maxDepth 1 →
        subject ⟨maxDepth, false⟩ kind (.start blob) = (.ok value, after)) ∧
      (max maxDepth 1 < value.depth → ∃ offset < after.cursor.position,
        subject ⟨maxDepth, false⟩ kind (.start blob) =
          (.error (.maxDepthExceeded (max maxDepth 1) offset), ⟨⟨offset, blob.drop offset⟩, 0⟩) ∧
        kind.HasTypeAt blob (max maxDepth 1) offset ∧
        ∀ other, kind.HasTypeAt blob (max maxDepth 1) other → offset ≤ other)) ∧
    (∀ error after, subject ⟨deep, false⟩ kind (.start blob) = (.error error, after) → ∀ maxDepth,
      subject ⟨maxDepth, false⟩ kind (.start blob) = (.error error, after) ∨ ∃ offset place,
        subject ⟨maxDepth, false⟩ kind (.start blob) =
          (.error (.maxDepthExceeded (max maxDepth 1) offset), ⟨place, 0⟩)) ∧
    ∀ maxDepth more, maxDepth ≤ more →
      (∀ limit offset after, subject ⟨maxDepth, false⟩ kind (.start blob) ≠
        (.error (.maxDepthExceeded limit offset), after)) →
      subject ⟨more, false⟩ kind (.start blob) = subject ⟨maxDepth, false⟩ kind (.start blob) := by
  refine ⟨fun error after h => ?_,
    fun value after h maxDepth => ⟨fun hdepth => ?_, fun hdepth => ?_⟩,
    fun error after h maxDepth => ?_, fun maxDepth more hle h => ?_⟩
  · exact Subject.read_error_kind_ne hdeep (subject_start_eq_error_iff.1 h).1
  · obtain ⟨hread, hnesting⟩ := subject_start_eq_ok_iff.1 h
    exact subject_start_eq_ok_iff.2
      ⟨(Subject.run_decode_eq_ok_iff_depth_le hread maxDepth).2 hdepth, hnesting⟩
  · obtain ⟨hread, -⟩ := subject_start_eq_ok_iff.1 h
    obtain ⟨offset, hlt, htrips, hfirst⟩ := Subject.read_trips_of_lt_depth hread hdepth
    exact ⟨offset, hlt, subject_start_eq_error_iff.2 ⟨htrips, rfl⟩, hfirst⟩
  · obtain ⟨hread, hnesting⟩ := subject_start_eq_error_iff.1 h
    rcases Subject.read_error_or_exceeds hdeep hread maxDepth with hsame | ⟨offset, place, htrips⟩
    · exact .inl (subject_start_eq_error_iff.2 ⟨hsame, hnesting⟩)
    · exact .inr ⟨offset, place, subject_start_eq_error_iff.2 ⟨htrips, rfl⟩⟩
  · have hread := Subject.read_eq_of_never_exceeds hle fun limit offset place htrips =>
      h limit offset ⟨place, 0⟩ (subject_start_eq_error_iff.2 ⟨htrips, rfl⟩)
    rw [subject_start, subject_start, hread]

end Parse

end SignatureBlob
