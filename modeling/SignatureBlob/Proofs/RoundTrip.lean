import SignatureBlob.Proofs.Shortening
import SignatureBlob.Proofs.SignatureRecognition
import SignatureBlob.Proofs.WellFormed

/-!
# Round trips

Writing and reading belong together: what is written is read back, whatever bytes follow it; what
can be written is what can be read; and to write what was read gives the one shortest blob that is
read as the same.

Main statements: `decode_encode_append`, `encode_ok_iff_decode_ok` and `encode_decode_shortest`.
-/

namespace SignatureBlob

open Grammar Decoder

variable {options : DecodeOptions} {bytes rest : List UInt8}

/-! ## Reading derived bytes -/

/-- The limit that is kept to is the given one or more. -/
theorem DecodeOptions.maxDepth_le_limit (options : DecodeOptions) :
    options.maxDepth ≤ options.limit :=
  Nat.le_max_left _ _

/-- The cursor can go over the first bytes of a blob up to the rest. -/
theorem Cursor.passes_start_append (bytes rest : List UInt8) :
    (Cursor.start (bytes ++ rest)).Passes bytes ⟨bytes.length, rest⟩ :=
  ⟨rfl, (Nat.zero_add _).symm⟩

namespace TypeSig

variable {type : TypeSig} {latitude : Latitude}

/-- Whatever the latitude, the forms are wide enough. -/
theorem Derives.wideEnough (h : type.Derives latitude bytes) : type.Derives .wideEnough bytes := by
  obtain ⟨_, hderives, rfl⟩ := h.respell (respelling_wideEnough latitude)
  exact hderives

/-- Bytes that derive a type are read as it, and no further. -/
theorem run_decode_append (hderives : type.Derives latitude bytes)
    (hdepth : type.depth ≤ options.limit) (rest : List UInt8) :
    (decode options).run (.start (bytes ++ rest)) = .ok type ⟨bytes.length, rest⟩ :=
  run_decode_eq_ok_iff.2
    ⟨bytes, ⟨hderives.wideEnough, hdepth⟩, Cursor.passes_start_append bytes rest⟩

/-- So are they where nothing follows. -/
theorem run_decode_self (hderives : type.Derives latitude bytes)
    (hdepth : type.depth ≤ options.limit) :
    (decode options).run (.start bytes) = .ok type ⟨bytes.length, []⟩ := by
  have hrun := run_decode_append hderives hdepth []
  rwa [List.append_nil] at hrun

/-- What is written for a type is what derives it with shortest integers. -/
theorem toBlob_emit_eq_ok_iff : type.emit.toBlob = .ok bytes ↔ type.Derives .shortest bytes :=
  Emission.toBlob_eq_ok_iff.trans emit_eq_ofBytes_iff

end TypeSig

namespace Signature

variable {signature : Signature} {latitude : Latitude}

/-- Whatever the latitude, the forms are wide enough. -/
theorem Derives.wideEnough (h : signature.Derives latitude bytes) :
    signature.Derives .wideEnough bytes := by
  obtain ⟨_, hderives, rfl⟩ := h.respell (respelling_wideEnough latitude)
  exact hderives

/-- Bytes that derive a signature are read as it, and no further. -/
theorem run_decode_append (hderives : signature.Derives latitude bytes)
    (hdepth : signature.depth ≤ options.limit) (hend : options.strict = true → rest = []) :
    (decode options signature.kind).run (.start (bytes ++ rest)) =
      .ok signature ⟨bytes.length, rest⟩ :=
  run_decode_eq_ok_iff.2
    ⟨⟨bytes, ⟨rfl, hderives.wideEnough, hdepth⟩, Cursor.passes_start_append bytes rest⟩, hend⟩

/-- So are they where nothing follows, in strict decoding too. -/
theorem run_decode_self (hderives : signature.Derives latitude bytes)
    (hdepth : signature.depth ≤ options.limit) :
    (decode options signature.kind).run (.start bytes) = .ok signature ⟨bytes.length, []⟩ := by
  have hrun : (decode options signature.kind).run (.start (bytes ++ [])) = _ :=
    run_decode_append hderives hdepth fun _ => rfl
  rwa [List.append_nil] at hrun

end Signature

/-! ## Written and read back -/

/-- Signatures of every kind and types are read back from what is written for them, up to the end of
it and whatever follows; in strict decoding nothing may follow a signature. -/
theorem decode_encode_append :
    (∀ (signature : Signature) (blob rest : List UInt8) (options : DecodeOptions),
      signature.encode = .ok blob → signature.depth ≤ options.maxDepth →
      (options.strict = true → rest = []) →
      (Signature.decode options signature.kind).run (.start (blob ++ rest)) =
        .ok signature ⟨blob.length, rest⟩) ∧
    ∀ (type : TypeSig) (blob rest : List UInt8) (options : DecodeOptions),
      type.emit.toBlob = .ok blob → type.depth ≤ options.maxDepth →
      (TypeSig.decode options).run (.start (blob ++ rest)) = .ok type ⟨blob.length, rest⟩ := by
  constructor
  · intro signature blob rest options hencode hdepth hend
    exact Signature.run_decode_append (Signature.encode_eq_ok_iff.1 hencode)
      (Nat.le_trans hdepth options.maxDepth_le_limit) hend
  · intro type blob rest options hencode hdepth
    exact TypeSig.run_decode_append (TypeSig.toBlob_emit_eq_ok_iff.1 hencode)
      (Nat.le_trans hdepth options.maxDepth_le_limit) rest

/-- A method with a sentinel and a negative lower bound, and a modified type whose token takes two
bytes. -/
theorem decode_encode_append_sentinel :
    (Signature.decode ⟨2, false⟩ .method).run
        (.start ([0x05, 0x01, 0x01, 0x41, 0x14, 0x08, 0x01, 0x00, 0x01, 0x7F] ++ [0xFF])) =
      .ok (.method ⟨{ convention := .varArg, sentinel := some 0 }, .primitive .void,
        [.array (.primitive .int32) ⟨1, [], [-1]⟩]⟩) ⟨10, [0xFF]⟩ ∧
    (TypeSig.decode ⟨2, true⟩).run (.start ([0x1F, 0x84, 0xB1, 0x03] ++ [0xFF])) =
      .ok (.modified (.ofParts .typeRef 300) true (.primitive .char)) ⟨4, [0xFF]⟩ := by
  constructor
  · exact decode_encode_append.1
      (.method ⟨{ convention := .varArg, sentinel := some 0 }, .primitive .void,
        [.array (.primitive .int32) ⟨1, [], [-1]⟩]⟩)
      [0x05, 0x01, 0x01, 0x41, 0x14, 0x08, 0x01, 0x00, 0x01, 0x7F] [0xFF] ⟨2, false⟩ rfl
      (by decide) nofun
  · exact decode_encode_append.2 (.modified (.ofParts .typeRef 300) true (.primitive .char))
      [0x1F, 0x84, 0xB1, 0x03] [0xFF] ⟨2, true⟩ rfl (by decide)

/-! ## What can be written and what can be read -/

/-- What is read has bytes, with shortest integers too. -/
theorem Signature.wellFormed_of_run_decode {kind : SignatureKind} {signature : Signature}
    {start stop : Cursor} (h : (decode options kind).run start = .ok signature stop) :
    signature.WellFormed := by
  obtain ⟨⟨bytes, ⟨_, hderives, _⟩, _⟩, _⟩ := run_decode_eq_ok_iff.1 h
  obtain ⟨better, hbetter, _⟩ := hderives.exists_shortest
  exact exists_derives_iff.1 ⟨better, hbetter⟩

/-- The same for types. -/
theorem TypeSig.wellFormed_of_run_decode {type : TypeSig} {start stop : Cursor}
    (h : (decode options).run start = .ok type stop) : type.WellFormed := by
  obtain ⟨bytes, ⟨hderives, _⟩, _⟩ := run_decode_eq_ok_iff.1 h
  obtain ⟨better, hbetter, _⟩ := hderives.exists_shortest
  exact exists_derives_iff.1 ⟨better, hbetter⟩

/-- What is written and what is read are the well-formed values, for signatures of every kind and
for types: a value is well formed exactly if it is written, if it is read with some options at some
place, and if some blob is read as it with all options that admit its depth. -/
theorem encode_ok_iff_decode_ok :
    (∀ signature : Signature,
      ((∃ blob, signature.encode = .ok blob) ↔ signature.WellFormed) ∧
      ((∃ options kind start stop,
        (Signature.decode options kind).run start = .ok signature stop) ↔ signature.WellFormed) ∧
      ((∃ blob, ∀ options : DecodeOptions, signature.depth ≤ options.maxDepth →
        (Signature.decode options signature.kind).run (.start blob) =
          .ok signature ⟨blob.length, []⟩) ↔ signature.WellFormed)) ∧
    ∀ type : TypeSig,
      ((∃ blob, type.emit.toBlob = .ok blob) ↔ type.WellFormed) ∧
      ((∃ options start stop, (TypeSig.decode options).run start = .ok type stop) ↔
        type.WellFormed) ∧
      ((∃ blob, ∀ options : DecodeOptions, type.depth ≤ options.maxDepth →
        (TypeSig.decode options).run (.start blob) = .ok type ⟨blob.length, []⟩) ↔
        type.WellFormed) := by
  constructor
  · intro signature
    have hblob : signature.WellFormed → ∃ blob, ∀ options : DecodeOptions,
        signature.depth ≤ options.maxDepth →
        (Signature.decode options signature.kind).run (.start blob) =
          .ok signature ⟨blob.length, []⟩ := by
      intro hwellFormed
      obtain ⟨blob, hderives⟩ := Signature.exists_derives_iff.2 hwellFormed
      exact ⟨blob, fun options hdepth => Signature.run_decode_self hderives
        (Nat.le_trans hdepth options.maxDepth_le_limit)⟩
    refine ⟨?_, ⟨?_, ?_⟩, ⟨?_, hblob⟩⟩
    · simp only [Signature.encode_eq_ok_iff]
      exact Signature.exists_derives_iff
    · rintro ⟨options, kind, start, stop, hrun⟩
      exact Signature.wellFormed_of_run_decode hrun
    · intro hwellFormed
      obtain ⟨blob, hrun⟩ := hblob hwellFormed
      exact ⟨⟨signature.depth, false⟩, _, _, _, hrun _ (Nat.le_refl _)⟩
    · rintro ⟨blob, hrun⟩
      exact Signature.wellFormed_of_run_decode (hrun ⟨signature.depth, false⟩ (Nat.le_refl _))
  · intro type
    have hblob : type.WellFormed → ∃ blob, ∀ options : DecodeOptions,
        type.depth ≤ options.maxDepth →
        (TypeSig.decode options).run (.start blob) = .ok type ⟨blob.length, []⟩ := by
      intro hwellFormed
      obtain ⟨blob, hderives⟩ := TypeSig.exists_derives_iff.2 hwellFormed
      exact ⟨blob, fun options hdepth => TypeSig.run_decode_self hderives
        (Nat.le_trans hdepth options.maxDepth_le_limit)⟩
    refine ⟨?_, ⟨?_, ?_⟩, ⟨?_, hblob⟩⟩
    · simp only [TypeSig.toBlob_emit_eq_ok_iff]
      exact TypeSig.exists_derives_iff
    · rintro ⟨options, start, stop, hrun⟩
      exact TypeSig.wellFormed_of_run_decode hrun
    · intro hwellFormed
      obtain ⟨blob, hrun⟩ := hblob hwellFormed
      exact ⟨⟨type.depth, false⟩, _, _, hrun _ (Nat.le_refl _)⟩
    · rintro ⟨blob, hrun⟩
      exact TypeSig.wellFormed_of_run_decode (hrun ⟨type.depth, false⟩ (Nat.le_refl _))

/-! ## The shortest blob -/

namespace TypeSig

variable {type : TypeSig} {latitude : Latitude}

/-- A type has one spelling with shortest integers. -/
theorem Derives.unique {other : List UInt8} (h : type.Derives .shortest bytes)
    (hother : type.Derives .shortest other) : bytes = other :=
  Emission.ofBytes_inj.1 ((emit_eq_ofBytes_iff.2 h).symm.trans (emit_eq_ofBytes_iff.2 hother))

/-- The bytes with shortest integers are the same as all others of the type, or fewer. -/
theorem Derives.improves {other : List UInt8} (h : type.Derives .shortest bytes)
    (hother : type.Derives latitude other) : Improves bytes other := by
  obtain ⟨better, hbetter, himproves⟩ := hother.exists_shortest
  rwa [hbetter.unique h] at himproves

/-- What is read up to the end of a blob is derived by the blob. -/
theorem derives_of_run_decode_self {blob : List UInt8}
    (h : (decode options).run (.start blob) = .ok type ⟨blob.length, []⟩) :
    type.Derives .wideEnough blob := by
  obtain ⟨bytes, ⟨hderives, _⟩, hpasses⟩ := run_decode_eq_ok_iff.1 h
  obtain ⟨_, rfl, _⟩ := Cursor.passes_start_iff.1 hpasses
  rwa [List.take_length] at hderives

end TypeSig

namespace Signature

variable {signature : Signature} {latitude : Latitude}

/-- A signature has one spelling with shortest integers. -/
theorem Derives.unique {other : List UInt8} (h : signature.Derives .shortest bytes)
    (hother : signature.Derives .shortest other) : bytes = other :=
  Emission.ofBytes_inj.1 ((emit_eq_ofBytes_iff.2 h).symm.trans (emit_eq_ofBytes_iff.2 hother))

/-- It is the same as any other of the signature, or shorter. -/
theorem Derives.improves {other : List UInt8} (h : signature.Derives .shortest bytes)
    (hother : signature.Derives latitude other) : Improves bytes other := by
  obtain ⟨better, hbetter, himproves⟩ := hother.exists_shortest
  rwa [hbetter.unique h] at himproves

/-- What is read up to the end of a blob is derived by the blob. -/
theorem derives_of_run_decode_self {kind : SignatureKind} {blob : List UInt8}
    (h : (decode options kind).run (.start blob) = .ok signature ⟨blob.length, []⟩) :
    signature.Derives .wideEnough blob := by
  obtain ⟨⟨bytes, ⟨_, hderives, _⟩, hpasses⟩, _⟩ := run_decode_eq_ok_iff.1 h
  obtain ⟨_, rfl, _⟩ := Cursor.passes_start_iff.1 hpasses
  rwa [List.take_length] at hderives

end Signature

/-- What was read from a blob, a signature of any kind or a type, is written in no more bytes than
were read, and in the same bytes if in as many. What is written is read as the same again, and it is
the one shortest of all blobs that are read whole as this. It is what was read exactly if each
integer there was in its shortest form. -/
theorem encode_decode_shortest :
    (∀ (options : DecodeOptions) (kind : SignatureKind) (blob : List UInt8) (signature : Signature)
      (stop : Cursor), (Signature.decode options kind).run (.start blob) = .ok signature stop →
      ∃ shortest, signature.encode = .ok shortest ∧
        shortest.length ≤ stop.position ∧
        (shortest.length = stop.position ↔ shortest = blob.take stop.position) ∧
        (Signature.decode options kind).run (.start shortest) =
          .ok signature ⟨shortest.length, []⟩ ∧
        (∀ (options' : DecodeOptions) (other : List UInt8),
          (Signature.decode options' kind).run (.start other) = .ok signature ⟨other.length, []⟩ →
          shortest.length ≤ other.length ∧ (shortest.length = other.length ↔ shortest = other)) ∧
        (blob.take stop.position = shortest ↔
          signature.Derives .shortest (blob.take stop.position))) ∧
    ∀ (options : DecodeOptions) (blob : List UInt8) (type : TypeSig) (stop : Cursor),
      (TypeSig.decode options).run (.start blob) = .ok type stop →
      ∃ shortest, type.emit.toBlob = .ok shortest ∧
        shortest.length ≤ stop.position ∧
        (shortest.length = stop.position ↔ shortest = blob.take stop.position) ∧
        (TypeSig.decode options).run (.start shortest) = .ok type ⟨shortest.length, []⟩ ∧
        (∀ (options' : DecodeOptions) (other : List UInt8),
          (TypeSig.decode options').run (.start other) = .ok type ⟨other.length, []⟩ →
          shortest.length ≤ other.length ∧ (shortest.length = other.length ↔ shortest = other)) ∧
        (blob.take stop.position = shortest ↔
          type.Derives .shortest (blob.take stop.position)) := by
  constructor
  · intro options kind blob signature stop hrun
    obtain ⟨⟨bytes, ⟨rfl, hderives, hdepth⟩, hpasses⟩, _⟩ := Signature.run_decode_eq_ok_iff.1 hrun
    obtain ⟨hle, rfl, _⟩ := Cursor.passes_start_iff.1 hpasses
    obtain ⟨shortest, hshortest, himproves⟩ := hderives.exists_shortest
    obtain ⟨hfewer, hasMany⟩ := himproves.length_take hle
    refine ⟨shortest, Signature.encode_eq_ok_iff.2 hshortest, hfewer, hasMany,
      Signature.run_decode_self hshortest hdepth, ?_, ?_, ?_⟩
    · intro options' other hother
      have himproves' := hshortest.improves (Signature.derives_of_run_decode_self hother)
      exact ⟨himproves'.length_le, himproves'.length_eq_iff⟩
    · intro htake
      rwa [htake]
    · intro htake
      exact htake.unique hshortest
  · intro options blob type stop hrun
    obtain ⟨bytes, ⟨hderives, hdepth⟩, hpasses⟩ := TypeSig.run_decode_eq_ok_iff.1 hrun
    obtain ⟨hle, rfl, _⟩ := Cursor.passes_start_iff.1 hpasses
    obtain ⟨shortest, hshortest, himproves⟩ := hderives.exists_shortest
    obtain ⟨hfewer, hasMany⟩ := himproves.length_take hle
    refine ⟨shortest, TypeSig.toBlob_emit_eq_ok_iff.2 hshortest, hfewer, hasMany,
      TypeSig.run_decode_self hshortest hdepth, ?_, ?_, ?_⟩
    · intro options' other hother
      have himproves' := hshortest.improves (TypeSig.derives_of_run_decode_self hother)
      exact ⟨himproves'.length_le, himproves'.length_eq_iff⟩
    · intro htake
      rwa [htake]
    · intro htake
      exact htake.unique hshortest

/-- Local variables whose number was read from two bytes, and a type parameter likewise. -/
theorem encode_decode_shortest_wide :
    (∃ shortest, (Signature.locals [.primitive .int32]).encode = .ok shortest ∧
      shortest.length ≤ 4) ∧
    ∃ shortest, (TypeSig.genericParam 5 false).emit.toBlob = .ok shortest ∧
      shortest.length ≤ 3 := by
  constructor
  · obtain ⟨shortest, hencode, hle, _⟩ := encode_decode_shortest.1 ⟨1, true⟩ .locals
      [0x07, 0x80, 0x01, 0x08] (.locals [.primitive .int32]) ⟨4, []⟩ rfl
    exact ⟨shortest, hencode, hle⟩
  · obtain ⟨shortest, hencode, hle, _⟩ := encode_decode_shortest.2 ⟨1, true⟩
      [0x13, 0x80, 0x05] (.genericParam 5 false) ⟨3, []⟩ rfl
    exact ⟨shortest, hencode, hle⟩

end SignatureBlob
