import SignatureBlob.Proofs.TypeRecognition
import SignatureBlob.Signature.Decode

/-!
# Recognition of signatures

The readers of signatures recognize the rules of their kinds. Strict decoding reads the same
signatures and then admits only those that end with the blob. From the start of a blob this says
which of its prefixes are read, and as what.

Main statements: `Signature.run_decode_eq_ok_iff` and `decode_eq_ok_iff_derives_take` (what is
accepted is exactly what the grammar has within the limit on nesting).
-/

namespace SignatureBlob

open Grammar Decoder CompressedInt

/-! ## The end of a blob -/

namespace Decoder

variable {α : Type} {start stop : Cursor}

/-- The end is checked without moving. -/
theorem run_finish_eq_ok_iff {options : DecodeOptions} {value : Unit} :
    (finish options).run start = .ok value stop ↔
      stop = start ∧ (options.strict = true → start.ahead = []) := by
  obtain ⟨place, ahead⟩ := start
  cases ahead with
  | nil =>
    simp only [finish, Outcome.ok.injEq, true_and, implies_true, and_true]
    exact eq_comm
  | cons next ahead =>
    simp only [finish, reduceCtorEq, imp_false, Bool.not_eq_true]
    cases options.strict with
    | false =>
      simp only [Bool.false_eq_true, if_false, Outcome.ok.injEq, true_and, and_true]
      exact eq_comm
    | true => simp

/-- Where the end is not admitted, the first byte behind it is to blame. -/
theorem eq_of_run_finish_eq_error {options : DecodeOptions} {error : Error}
    (h : (finish options).run start = .error error stop) :
    stop = start ∧ ∃ next, start.ahead.head? = some next ∧
      error = .invalidEncoding start.position next (.trailing start.remaining) := by
  obtain ⟨place, ahead⟩ := start
  cases ahead with
  | nil => cases h
  | cons next ahead =>
    unfold finish at h
    cases hstrict : options.strict with
    | false => simp [hstrict] at h
    | true =>
      simp only [hstrict, if_true, Outcome.error.injEq] at h
      exact ⟨h.2.symm, next, rfl, h.1.symm⟩

/-- With the check at the end, the value is the same and strictness leaves nothing ahead. -/
theorem run_whole_eq_ok_iff {options : DecodeOptions} {decoder : Decoder α} {value : α} :
    (decoder.whole options).run start = .ok value stop ↔
      decoder.run start = .ok value stop ∧ (options.strict = true → stop.ahead = []) := by
  simp only [whole, run_bind_eq_ok_iff, run_finish_eq_ok_iff, run_pure, Outcome.ok.injEq]
  constructor
  · rintro ⟨_, _, hrun, _, _, ⟨rfl, hahead⟩, rfl, rfl⟩
    exact ⟨hrun, hahead⟩
  · rintro ⟨hrun, hahead⟩
    exact ⟨_, _, hrun, (), _, ⟨rfl, hahead⟩, rfl, rfl⟩

/-- Where bytes behind a value are left alone, a whole value is just a value. -/
theorem whole_of_not_strict (decoder : Decoder α) (maxDepth : Nat) :
    decoder.whole ⟨maxDepth, false⟩ = decoder := by
  have hfinish : ∀ start, (finish ⟨maxDepth, false⟩).run start = .ok () start := by
    rintro ⟨place, _ | ⟨next, ahead⟩⟩ <;> rfl
  refine ext fun start => ?_
  cases hrun : decoder.run start with
  | ok value stop => rw [whole, run_bind_ok hrun, run_bind_ok (hfinish stop), run_pure]
  | error error stop => rw [whole, run_bind_error hrun]

end Decoder

/-! ## Kinds of signature -/

namespace Signature

variable {inner : Decoder TypeSig} {grammar : TypeSig → List UInt8 → Prop}

/-- The first byte of a signature is one of those that its kind begins with. -/
theorem recognizes_decodeLead (kind : SignatureKind) :
    (decodeLead kind).Recognizes fun lead bytes => lead ∈ kind.leads ∧ bytes = [lead] := by
  have hnext : ∀ offset lead, (if kind.leads.contains lead then return lead
      else refuse offset lead (.wrongLead kind) : Decoder UInt8).Recognizes fun result bytes =>
        lead ∈ kind.leads ∧ result = lead ∧ bytes = [] := by
    intro offset lead
    by_cases hlead : lead ∈ kind.leads
    · rw [if_pos (List.contains_iff_mem.2 hlead)]
      simpa only [hlead, true_and] using recognizes_pure lead
    · rw [if_neg (mt List.contains_iff_mem.1 hlead)]
      simpa only [hlead, false_and] using recognizes_refuse offset lead (.wrongLead kind)
  refine (recognizes_ask_bind fun offset =>
    recognizes_bind recognizes_byte (hnext offset)).congr ?_
  intro lead bytes
  constructor
  · rintro ⟨_, _, _, rfl, ⟨hlead, rfl, rfl⟩, rfl⟩
    exact ⟨hlead, rfl⟩
  · rintro ⟨hlead, rfl⟩
    exact ⟨lead, [lead], [], rfl, ⟨hlead, rfl, rfl⟩, rfl⟩

/-- The two lead bytes of a property differ in the bit of the instance. -/
theorem mem_leads_property_iff {lead : UInt8} :
    lead ∈ SignatureKind.property.leads ↔
      lead = if HeaderBit.isSet HeaderBit.hasThis lead then 0x28 else 0x08 := by
  constructor
  · intro h
    obtain rfl | rfl : lead = 0x08 ∨ lead = 0x28 := by simpa [SignatureKind.leads] using h
    · rfl
    · rfl
  · intro h
    rw [h]
    split
    · decide
    · decide

/-- A property, one part behind the other. -/
theorem decodeWith_property (inner : Decoder TypeSig) :
    decodeWith inner .property =
      decodeLead .property >>= fun lead => decodeUnsigned >>= fun count => inner >>= fun type =>
        inner.list count >>= fun params =>
          pure (property (HeaderBit.isSet HeaderBit.hasThis lead) type params) := by
  simp only [decodeWith, Reader.signature, Reader.typeAndParams, Reader.lift_decoder,
    Reader.tally_decoder, bind_assoc, pure_bind]

/-- A property is read by its rule, the first byte telling whether it belongs to an instance. -/
theorem recognizes_decodeWith_property (h : inner.Recognizes grammar) :
    (decodeWith inner .property).Recognizes fun signature bytes =>
      signature.kind = .property ∧ signature.DerivesWith .wideEnough grammar bytes := by
  rw [decodeWith_property]
  refine (recognizes_bind (recognizes_decodeLead .property) fun lead =>
    recognizes_bind recognizes_decodeUnsigned fun count => recognizes_bind h fun type =>
      recognizes_map (recognizes_list h count) fun params =>
        property (HeaderBit.isSet HeaderBit.hasThis lead) type params).congr
    fun signature bytes => ⟨?_, ?_⟩
  · rintro ⟨lead, _, _, ⟨hlead, rfl⟩, ⟨count, first, _, hcount, ⟨type, second, third, htype,
      ⟨params, ⟨rfl, hparams⟩, rfl⟩, rfl⟩, rfl⟩, rfl⟩
    rw [List.singleton_append]
    have hderives : DerivesWith .wideEnough grammar
        (property (HeaderBit.isSet HeaderBit.hasThis lead) type params)
        ((if HeaderBit.isSet HeaderBit.hasThis lead then 0x28 else 0x08)
          :: (first ++ (second ++ third))) :=
      .property hcount htype hparams
    rw [← mem_leads_property_iff.1 hlead] at hderives
    exact ⟨rfl, hderives⟩
  · rintro ⟨hkind, hderives⟩
    cases hderives with
    | @property hasThis type params _ _ _ counted derived each =>
      have hbit : HeaderBit.isSet HeaderBit.hasThis (if hasThis then 0x28 else 0x08) =
          hasThis := by
        cases hasThis <;> decide
      refine ⟨if hasThis then 0x28 else 0x08, _, _, ⟨?_, rfl⟩,
        ⟨_, _, _, counted, ⟨_, _, _, derived, ⟨params, ⟨rfl, each⟩, ?_⟩, rfl⟩, rfl⟩, rfl⟩
      · rw [mem_leads_property_iff, hbit]
      · rw [hbit]
    | _ => cases hkind

/-- A signature is read by the rule of its kind if its types are read by theirs. -/
theorem recognizes_decodeWith (h : inner.Recognizes grammar)
    (hunmarked : Grammar.Unmarked grammar) (kind : SignatureKind) :
    (decodeWith inner kind).Recognizes fun signature bytes =>
      signature.kind = kind ∧ signature.DerivesWith .wideEnough grammar bytes := by
  cases kind with
  | method =>
    refine (recognizes_map (MethodSig.recognizes_decodeWith h hunmarked) method).congr
      fun signature bytes => ⟨?_, ?_⟩
    · rintro ⟨m, hmethod, rfl⟩
      exact ⟨rfl, .method hmethod⟩
    · rintro ⟨hkind, hderives⟩
      cases hderives with
      | method derived => exact ⟨_, derived, rfl⟩
      | _ => cases hkind
  | field =>
    refine (recognizes_bind (recognizes_decodeLead .field) fun _ =>
      recognizes_map h field).congr fun signature bytes => ⟨?_, ?_⟩
    · rintro ⟨lead, _, back, ⟨hlead, rfl⟩, ⟨type, htype, rfl⟩, rfl⟩
      obtain rfl := List.mem_singleton.1 hlead
      exact ⟨rfl, .field htype⟩
    · rintro ⟨hkind, hderives⟩
      cases hderives with
      | field derived => exact ⟨_, _, _, ⟨List.mem_singleton_self _, rfl⟩, ⟨_, derived, rfl⟩, rfl⟩
      | _ => cases hkind
  | property => exact recognizes_decodeWith_property h
  | locals =>
    refine (recognizes_bind (recognizes_decodeLead .locals) fun _ =>
      recognizes_map (TypeSig.recognizes_decodeNonempty h .noLocals) locals).congr
      fun signature bytes => ⟨?_, ?_⟩
    · rintro ⟨lead, _, _, ⟨hlead, rfl⟩, ⟨types, ⟨first, second, hnonempty, hcount, heach, rfl⟩,
        rfl⟩, rfl⟩
      obtain rfl := List.mem_singleton.1 hlead
      rw [List.singleton_append]
      exact ⟨rfl, .locals hnonempty hcount heach⟩
    · rintro ⟨hkind, hderives⟩
      cases hderives with
      | locals nonempty counted each =>
        exact ⟨_, _, _, ⟨List.mem_singleton_self _, rfl⟩,
          ⟨_, ⟨_, _, nonempty, counted, each, rfl⟩, rfl⟩, rfl⟩
      | _ => cases hkind
  | typeSpec =>
    refine (recognizes_map h typeSpec).congr fun signature bytes => ⟨?_, ?_⟩
    · rintro ⟨type, htype, rfl⟩
      exact ⟨rfl, .typeSpec htype⟩
    · rintro ⟨hkind, hderives⟩
      cases hderives with
      | typeSpec derived => exact ⟨_, derived, rfl⟩
      | _ => cases hkind
  | methodSpec =>
    refine (recognizes_bind (recognizes_decodeLead .methodSpec) fun _ =>
      recognizes_map (TypeSig.recognizes_decodeNonempty h .noMethodArguments) methodSpec).congr
      fun signature bytes => ⟨?_, ?_⟩
    · rintro ⟨lead, _, _, ⟨hlead, rfl⟩, ⟨args, ⟨first, second, hnonempty, hcount, heach, rfl⟩,
        rfl⟩, rfl⟩
      obtain rfl := List.mem_singleton.1 hlead
      rw [List.singleton_append]
      exact ⟨rfl, .methodSpec hnonempty hcount heach⟩
    · rintro ⟨hkind, hderives⟩
      cases hderives with
      | methodSpec nonempty counted each =>
        exact ⟨_, _, _, ⟨List.mem_singleton_self _, rfl⟩,
          ⟨_, ⟨_, _, nonempty, counted, each, rfl⟩, rfl⟩, rfl⟩
      | _ => cases hkind

/-- The types of a signature are read within the limit of the options. -/
theorem recognizes_decode (options : DecodeOptions) (kind : SignatureKind) :
    (decodeWith (TypeSig.decode options) kind).Recognizes fun signature bytes =>
      signature.kind = kind ∧ signature.Derives .wideEnough bytes ∧
        signature.depth ≤ options.limit := by
  refine (recognizes_decodeWith (TypeSig.recognizes_decodeWithin _ _)
    (TypeSig.unmarked_derives_within _) kind).congr fun signature bytes => ?_
  rw [derivesWith_and_iff, depth_le_iff]
  rfl

/-- A signature is read exactly if bytes ahead derive it, the limit admits its depth and, in strict
decoding, nothing follows. -/
theorem run_decode_eq_ok_iff {options : DecodeOptions} {kind : SignatureKind}
    {signature : Signature} {start stop : Cursor} :
    (decode options kind).run start = .ok signature stop ↔
      (∃ bytes, (signature.kind = kind ∧ signature.Derives .wideEnough bytes ∧
        signature.depth ≤ options.limit) ∧ start.Passes bytes stop) ∧
      (options.strict = true → stop.ahead = []) := by
  rw [decode, run_whole_eq_ok_iff, recognizes_decode]

end Signature

/-! ## Whole blobs -/

/-- A blob is accepted up to a place exactly when its bytes up to there derive the value and the
types of the value are nested within the limit, for signatures of every kind and for types. -/
theorem decode_eq_ok_iff_derives_take (maxDepth : Nat) (blob : List UInt8) (stop : Cursor) :
    (∀ (kind : SignatureKind) (signature : Signature),
      (Signature.decode ⟨maxDepth, false⟩ kind).run (.start blob) = .ok signature stop ↔
        ∃ count ≤ blob.length, stop = ⟨count, blob.drop count⟩ ∧ signature.kind = kind ∧
          signature.Derives .wideEnough (blob.take count) ∧
          signature.depth ≤ max maxDepth 1) ∧
    ∀ (strict : Bool) (type : TypeSig),
      (TypeSig.decode ⟨maxDepth, strict⟩).run (.start blob) = .ok type stop ↔
        ∃ count ≤ blob.length, stop = ⟨count, blob.drop count⟩ ∧
          type.Derives .wideEnough (blob.take count) ∧ type.depth ≤ max maxDepth 1 := by
  have hupto : ∀ P : List UInt8 → Prop, (∃ bytes, P bytes ∧ (Cursor.start blob).Passes bytes stop) ↔
      ∃ count ≤ blob.length, stop = ⟨count, blob.drop count⟩ ∧ P (blob.take count) := by
    intro P
    obtain ⟨place, ahead⟩ := stop
    simp only [Cursor.passes_start_iff, Cursor.mk.injEq]
    constructor
    · rintro ⟨_, hP, hle, rfl, rfl⟩
      exact ⟨place, hle, ⟨rfl, rfl⟩, hP⟩
    · rintro ⟨_, hle, ⟨rfl, rfl⟩, hP⟩
      exact ⟨_, hP, hle, rfl, rfl⟩
  refine ⟨?_, ?_⟩
  · intro kind signature
    rw [Signature.run_decode_eq_ok_iff, hupto]
    simp only [Bool.false_eq_true, false_imp_iff, and_true]
    rfl
  · intro strict type
    exact TypeSig.run_decode_eq_ok_iff.trans (hupto _)

end SignatureBlob
