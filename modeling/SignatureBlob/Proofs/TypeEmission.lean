import SignatureBlob.Proofs.EmissionGrammar
import SignatureBlob.Proofs.Respelling
import SignatureBlob.Signature.Encode

/-!
# The grammar of written signatures

A method, a type or a signature is written without a fault exactly when the grammar with shortest
integers derives it, and then with the bytes that derive it.

Main statements: `TypeSig.emit_eq_ofBytes_iff` and `Signature.encode_eq_ok_iff`.
-/

namespace SignatureBlob

open Grammar CompressedInt Emission

variable {bytes : List UInt8}

/-! ## Methods -/

namespace MethodHeader

/-- What holds of the numbers below 256 as bytes holds of every byte. -/
theorem forall_byte {P : UInt8 → Prop} (h : ∀ number < 256, P (UInt8.ofNat number))
    (byte : UInt8) : P byte := by
  have hbyte := h byte.toNat byte.toNat_lt
  rwa [UInt8.ofNat_toNat] at hbyte

/-- A byte is put together of the convention, the three flags and the reserved bit in it. -/
theorem eq_or_of_bits : ∀ lead : UInt8,
    lead = (lead &&& HeaderBit.convention)
      ||| (HeaderBit.when HeaderBit.generic (HeaderBit.isSet HeaderBit.generic lead)
        ||| HeaderBit.when HeaderBit.hasThis (HeaderBit.isSet HeaderBit.hasThis lead)
        ||| HeaderBit.when HeaderBit.explicitThis (HeaderBit.isSet HeaderBit.explicitThis lead))
      ||| HeaderBit.when HeaderBit.reserved (HeaderBit.isSet HeaderBit.reserved lead) :=
  forall_byte (by decide +kernel)

/-- One byte leads a header, and it leads it if only a method on an instance lists the instance. -/
theorem ledBy_iff {header : MethodHeader} {lead : UInt8} :
    header.LedBy lead ↔
      lead = header.byte ∧ (header.explicitThis = true → header.hasThis = true) := by
  constructor
  · rintro ⟨hconvention, hreserved, hgeneric, hhasThis, hexplicitThis, hinstance⟩
    refine ⟨?_, hinstance⟩
    rw [eq_or_of_bits lead, hconvention, hreserved, hgeneric, hhasThis, hexplicitThis]
    exact UInt8.or_zero
  · obtain ⟨convention, hasThis, explicitThis, generic, arity, sentinel⟩ := header
    rintro ⟨rfl, hinstance⟩
    have hled : (MethodHeader.mk convention hasThis explicitThis generic 0 none).LedBy
        (MethodHeader.mk convention hasThis explicitThis generic 0 none).byte := by
      cases convention <;> cases hasThis <;> cases explicitThis <;> cases generic <;>
        exact ⟨rfl, rfl, rfl, rfl, rfl, hinstance⟩
    exact hled.with_numbers arity sentinel

/-- The checks and the header are written by their rule. -/
theorem emit_header_eq_ofBytes_iff {header : MethodHeader} {count : Nat} {bytes : List UInt8} :
    header.emitChecks count ++ (.byte header.byte
      ++ if header.generic then emitUnsigned header.arity else .empty) = .ofBytes bytes ↔
      header.Derives .shortest bytes ∧ header.sentinelFits count = true := by
  have himp : (!header.explicitThis || header.hasThis) = true ↔
      (header.explicitThis = true → header.hasThis = true) := by
    cases header.explicitThis <;> simp
  simp only [emitChecks_eq, Emission.append_assoc, require_append_eq_ofBytes_iff,
    byte_append_eq_ofBytes_iff, himp]
  constructor
  · rintro ⟨hinstance, harity, hfits, back, hback, rfl⟩
    have hled : header.LedBy header.byte := ledBy_iff.2 ⟨rfl, hinstance⟩
    refine ⟨?_, hfits⟩
    split at hback
    · next hgeneric => exact .generic hled hgeneric (emitUnsigned_eq_ofBytes_iff.1 hback)
    · next hgeneric =>
      obtain rfl := empty_eq_ofBytes_iff.1 hback
      exact .plain hled (Bool.eq_false_iff.2 hgeneric) (by simpa [hgeneric] using harity)
  · rintro ⟨hderives, hfits⟩
    cases hderives with
    | plain led flag none =>
      obtain ⟨rfl, hinstance⟩ := ledBy_iff.1 led
      exact ⟨hinstance, by simp [none], hfits, [], by simp [flag], rfl⟩
    | generic led flag counted =>
      obtain ⟨rfl, hinstance⟩ := ledBy_iff.1 led
      refine ⟨hinstance, by simp [flag], hfits, _, ?_, rfl⟩
      rw [if_pos flag]
      exact emitUnsigned_eq_ofBytes_iff.2 counted

end MethodHeader

namespace MethodSig

variable {inner : TypeSig → List UInt8 → Prop} {sentinel : Option Nat} {params : List TypeSig}

/-- Without a mark the parameters are a list. -/
theorem derivesParams_none_iff :
    DerivesParams inner none params bytes ↔ Each inner params bytes := by
  constructor
  · rintro ⟨each⟩
    exact each
  · exact .fixed

/-- The place of the sentinel is that of a parameter. -/
theorem DerivesParams.sentinel_lt {index : Nat}
    (h : DerivesParams inner (some index) params bytes) : index < params.length := by
  cases h with
  | varArgs before behind nonempty =>
    have hpos := List.length_pos_iff.2 nonempty
    rw [List.length_append]
    omega

/-- Parameters are written with the mark in front of the one at the place of the sentinel. -/
theorem emitParams_eq_ofBytes_iff
    (hplace : ∀ index, sentinel = some index → index < params.length) :
    MethodHeader.emitParams sentinel (params.map TypeSig.emit) = .ofBytes bytes ↔
      DerivesParams (fun type bytes => type.emit = .ofBytes bytes) sentinel params bytes := by
  -- the place of the sentinel comes nearer with each parameter, so it is not fixed
  induction params generalizing sentinel bytes with
  | nil =>
    have hnone : sentinel = none := by
      cases sentinel with
      | none => rfl
      | some index => exact absurd (hplace index rfl) (Nat.not_lt_zero _)
    simp [derivesParams_nil_iff, MethodHeader.emitParams, hnone]
  | cons param params ih =>
    have hnone : ∀ {bytes},
        MethodHeader.emitParams none (params.map TypeSig.emit) = .ofBytes bytes ↔
        Each (fun type bytes => type.emit = .ofBytes bytes) params bytes := by
      intro bytes
      have hnowhere : ∀ index, none = some index → index < params.length := by
        rintro _ ⟨⟩
      rw [ih hnowhere, derivesParams_none_iff]
    rw [List.map_cons, derivesParams_cons_iff]
    cases sentinel with
    | none =>
      rw [MethodHeader.emitParams, append_eq_ofBytes_iff]
      constructor
      · rintro ⟨front, back, hparam, hparams, rfl⟩
        exact .inl ⟨none, front, back, hparam, .fixed (hnone.1 hparams), rfl, rfl⟩
      · rintro (⟨place, front, back, hparam, hparams, hplace, rfl⟩ | ⟨_, _, _, _, hsome, _⟩)
        · obtain rfl : place = none := Option.map_eq_none_iff.1 hplace.symm
          exact ⟨front, back, hparam, hnone.2 (derivesParams_none_iff.1 hparams), rfl⟩
        · cases hsome
    | some index =>
      cases index with
      | zero =>
        rw [MethodHeader.emitParams, Emission.append_assoc, byte_append_eq_ofBytes_iff]
        simp only [append_eq_ofBytes_iff, true_and]
        constructor
        · rintro ⟨_, ⟨front, back, hparam, hparams, rfl⟩, rfl⟩
          exact .inr ⟨front, back, hparam, hnone.1 hparams, rfl⟩
        · rintro (⟨place, _, _, _, _, hzero, _⟩ | ⟨front, back, hparam, heach, rfl⟩)
          · cases place <;> cases hzero
          · exact ⟨_, ⟨front, back, hparam, hnone.2 heach, rfl⟩, rfl⟩
      | succ index =>
        have hindex : ∀ other, some index = some other → other < params.length := by
          intro other hother
          rw [← Option.some.inj hother]
          exact Nat.succ_lt_succ_iff.1 (hplace _ rfl)
        rw [MethodHeader.emitParams, append_eq_ofBytes_iff]
        constructor
        · rintro ⟨front, back, hparam, hparams, rfl⟩
          exact .inl ⟨some index, front, back, hparam, (ih hindex).1 hparams, rfl, rfl⟩
        · rintro (⟨place, front, back, hparam, hparams, hsucc, rfl⟩ | ⟨_, _, _, _, hzero, _⟩)
          · obtain rfl : place = some index := by
              cases place with
              | none => cases hsucc
              | some other => exact congrArg some (Nat.succ.inj (Option.some.inj hsucc)).symm
            exact ⟨front, back, hparam, (ih hindex).2 hparams, rfl⟩
          · cases hzero

/-- A sentinel needs a convention that admits it and a parameter behind it. -/
theorem sentinelFits_iff {header : MethodHeader} {count : Nat} :
    header.sentinelFits count = true ↔
      (header.sentinel.isSome = true → header.convention.admitsVarArgs = true) ∧
        ∀ index, header.sentinel = some index → index < count := by
  unfold MethodHeader.sentinelFits
  cases header.sentinel with
  | none => simp
  | some index => simp

/-- A method is written by its rule if its types are written by theirs. -/
theorem emit_eq_ofBytes_iff {method : MethodSig} :
    method.emit = .ofBytes bytes ↔
      method.DerivesWith .shortest (fun type bytes => type.emit = .ofBytes bytes) bytes := by
  obtain ⟨header, result, params⟩ := method
  have hemit : (MethodSig.mk header result params).emit =
      (header.emitChecks params.length ++ (.byte header.byte
        ++ if header.generic then emitUnsigned header.arity else .empty))
      ++ (emitCount header.byte .parameters params.length
        ++ (result.emit ++ MethodHeader.emitParams header.sentinel (params.map TypeSig.emit))) := by
    simp only [MethodSig.emit_eq, MethodHeader.emit_eq, List.length_map, Emission.append_assoc]
  rw [hemit, append_eq_ofBytes_iff]
  simp only [MethodHeader.emit_header_eq_ofBytes_iff]
  simp only [append_eq_ofBytes_iff, emitCount_eq_ofBytes_iff]
  constructor
  · rintro ⟨first, _, ⟨headed, hfits⟩, ⟨second, _, counted, ⟨third, fourth, returned, hparams,
      rfl⟩, rfl⟩, rfl⟩
    obtain ⟨admitted, hplace⟩ := sentinelFits_iff.1 hfits
    have listed := (emitParams_eq_ofBytes_iff hplace).1 hparams
    exact .intro headed counted returned listed admitted
  · rintro ⟨headed, counted, returned, listed, admitted⟩
    have hplace : ∀ index, header.sentinel = some index → index < params.length := by
      intro index hindex
      rw [hindex] at listed
      exact listed.sentinel_lt
    have hfits := sentinelFits_iff.2 ⟨admitted, hplace⟩
    have hparams := (emitParams_eq_ofBytes_iff hplace).2 listed
    exact ⟨_, _, ⟨headed, hfits⟩, ⟨_, _, counted, ⟨_, _, returned, hparams, rfl⟩, rfl⟩, rfl⟩

end MethodSig

/-! ## Types -/

namespace TypeSig

/-- What an element type announces is of this element type. -/
theorem Announces.elementType_eq {latitude : Latitude} {inner : TypeSig → List UInt8 → Prop}
    {element : ElementType} {type : TypeSig} (h : Announces latitude inner element type bytes) :
    type.elementType = element := by
  cases h <;> rfl

/-- What is announced and written tells how the whole type is written. -/
theorem emit_eq_ofBytes_iff_of_announce {inner : TypeSig → List UInt8 → Prop} {type : TypeSig}
    {rest : Emission} (hemit : type.emit = announce type.elementType rest)
    (hrest : ∀ back, rest = .ofBytes back ↔
      Announces .shortest inner type.elementType type back) :
    type.emit = .ofBytes bytes ↔ DerivesWith .shortest inner type bytes := by
  rw [hemit, announce, byte_append_eq_ofBytes_iff]
  constructor
  · rintro ⟨back, hback, rfl⟩
    exact .intro ((hrest back).1 hback)
  · rintro ⟨announced⟩
    obtain rfl := announced.elementType_eq
    exact ⟨_, (hrest _).2 announced, rfl⟩

/-- A type parameter is written by the rule of its owner. -/
theorem emit_genericParam_eq_ofBytes_iff {inner : TypeSig → List UInt8 → Prop} {index : Nat}
    {ofMethod : Bool} :
    (genericParam index ofMethod).emit = .ofBytes bytes ↔
      DerivesWith .shortest inner (genericParam index ofMethod) bytes := by
  refine emit_eq_ofBytes_iff_of_announce rfl fun back => ?_
  rw [emitUnsigned_eq_ofBytes_iff]
  cases ofMethod with
  | true =>
    refine ⟨?_, ?_⟩
    · intro h
      exact .methodParameter h
    · intro h
      cases h with
      | methodParameter counted => exact counted
  | false =>
    refine ⟨?_, ?_⟩
    · intro h
      exact .typeParameter h
    · intro h
      cases h with
      | typeParameter counted => exact counted

/-- A generic type with its arguments is written by its rule. -/
theorem emit_instantiation_eq_ofBytes_iff {base : Token} {isValueType : Bool}
    {args : List TypeSig} :
    (instantiation base isValueType args).emit = .ofBytes bytes ↔
      DerivesWith .shortest (fun type bytes => type.emit = .ofBytes bytes)
        (instantiation base isValueType args) bytes := by
  refine emit_eq_ofBytes_iff_of_announce rfl fun back => ?_
  simp only [Emission.append_assoc, require_append_eq_ofBytes_iff, byte_append_eq_ofBytes_iff,
    Bool.not_eq_true', List.isEmpty_eq_false_iff]
  simp only [append_eq_ofBytes_iff, CodedToken.emit_eq_ofBytes_iff, emitCount_eq_ofBytes_iff,
    emitEach_eq_map, concat_eq_ofBytes_iff]
  constructor
  · rintro ⟨hnonempty, _, ⟨first, _, coded, ⟨second, third, counted, each, rfl⟩, rfl⟩, rfl⟩
    exact .instantiation coded hnonempty counted each
  · intro h
    cases h with
    | instantiation coded nonempty counted each =>
      exact ⟨nonempty, _, ⟨_, _, coded, ⟨_, _, counted, each, rfl⟩, rfl⟩, rfl⟩

/-- A modified type is written by its rule, whether the modifier is required or not. -/
theorem emit_modified_eq_ofBytes_iff {modifier : Token} {required : Bool} {type : TypeSig} :
    (modified modifier required type).emit = .ofBytes bytes ↔
      DerivesWith .shortest (fun type bytes => type.emit = .ofBytes bytes)
        (modified modifier required type) bytes := by
  refine emit_eq_ofBytes_iff_of_announce rfl fun back => ?_
  rw [append_eq_ofBytes_iff]
  simp only [CodedToken.emit_eq_ofBytes_iff]
  cases required with
  | true =>
    constructor
    · rintro ⟨front, back, coded, nested, rfl⟩
      exact .requiredModifier coded nested
    · intro h
      cases h with
      | requiredModifier coded nested => exact ⟨_, _, coded, nested, rfl⟩
  | false =>
    constructor
    · rintro ⟨front, back, coded, nested, rfl⟩
      exact .optionalModifier coded nested
    · intro h
      cases h with
      | optionalModifier coded nested => exact ⟨_, _, coded, nested, rfl⟩

/-- A type is written by its rule if the types inside are written by theirs. -/
theorem emit_eq_ofBytes_iff_derivesWith {type : TypeSig} :
    type.emit = .ofBytes bytes ↔
      type.DerivesWith .shortest (fun type bytes => type.emit = .ofBytes bytes) bytes := by
  cases type with
  | primitive kind =>
    refine emit_eq_ofBytes_iff_of_announce rfl fun back => ⟨?_, ?_⟩
    · intro h
      obtain rfl := empty_eq_ofBytes_iff.1 h
      exact .primitive kind
    · intro h
      cases h
      rfl
  | classType token =>
    refine emit_eq_ofBytes_iff_of_announce rfl fun back => ⟨?_, ?_⟩
    · intro h
      exact .classType (CodedToken.emit_eq_ofBytes_iff.1 h)
    · intro h
      cases h with
      | classType coded => exact CodedToken.emit_eq_ofBytes_iff.2 coded
  | valueType token =>
    refine emit_eq_ofBytes_iff_of_announce rfl fun back => ⟨?_, ?_⟩
    · intro h
      exact .valueType (CodedToken.emit_eq_ofBytes_iff.1 h)
    · intro h
      cases h with
      | valueType coded => exact CodedToken.emit_eq_ofBytes_iff.2 coded
  | vector element =>
    refine emit_eq_ofBytes_iff_of_announce rfl fun back => ⟨?_, ?_⟩
    · intro h
      exact .vector h
    · intro h
      cases h with
      | vector nested => exact nested
  | array element shape =>
    refine emit_eq_ofBytes_iff_of_announce rfl fun back => ?_
    rw [append_eq_ofBytes_iff]
    constructor
    · rintro ⟨front, back, helement, hshape, rfl⟩
      exact .array helement (ArrayShape.emit_eq_ofBytes_iff.1 hshape)
    · intro h
      cases h with
      | array nested shaped =>
        exact ⟨_, _, nested, ArrayShape.emit_eq_ofBytes_iff.2 shaped, rfl⟩
  | pointer target =>
    refine emit_eq_ofBytes_iff_of_announce rfl fun back => ⟨?_, ?_⟩
    · intro h
      exact .pointer h
    · intro h
      cases h with
      | pointer nested => exact nested
  | byRef target =>
    refine emit_eq_ofBytes_iff_of_announce rfl fun back => ⟨?_, ?_⟩
    · intro h
      exact .byRef h
    · intro h
      cases h with
      | byRef nested => exact nested
  | genericParam index ofMethod => exact emit_genericParam_eq_ofBytes_iff
  | instantiation base isValueType args => exact emit_instantiation_eq_ofBytes_iff
  | functionPointer header result params =>
    have hemit : (functionPointer header result params).emit =
        announce .functionPointer (MethodSig.mk header result params).emit := rfl
    refine emit_eq_ofBytes_iff_of_announce hemit fun back => ?_
    rw [MethodSig.emit_eq_ofBytes_iff]
    refine ⟨?_, ?_⟩
    · intro h
      exact .functionPointer h
    · intro h
      cases h with
      | functionPointer method => exact method
  | modified modifier required inner => exact emit_modified_eq_ofBytes_iff
  | pinned inner =>
    refine emit_eq_ofBytes_iff_of_announce rfl fun back => ⟨?_, ?_⟩
    · intro h
      exact .pinned h
    · intro h
      cases h with
      | pinned nested => exact nested

/-- A type is written with the bytes that derive it with shortest integers. -/
theorem emit_eq_ofBytes_iff {type : TypeSig} :
    type.emit = .ofBytes bytes ↔ type.Derives .shortest bytes := by
  induction type using induction_on_children generalizing bytes with
  | step type ih =>
    rw [emit_eq_ofBytes_iff_derivesWith, derives_iff]
    exact derivesWith_congr fun child hchild _ => ih child hchild

end TypeSig

/-! ## Signatures -/

namespace Signature

/-- A list of types behind its first byte is written by its rule. -/
theorem emitList_eq_ofBytes_iff {lead : UInt8} {listed : Listed} {ifEmpty : Defect}
    {types : List TypeSig} :
    emitList lead listed ifEmpty types = .ofBytes bytes ↔
      ∃ front back, types ≠ [] ∧ DerivesUnsigned .shortest types.length front ∧
        Each (TypeSig.Derives .shortest) types back ∧ bytes = lead :: (front ++ back) := by
  simp only [emitList, Emission.append_assoc, byte_append_eq_ofBytes_iff,
    require_append_eq_ofBytes_iff, Bool.not_eq_true', List.isEmpty_eq_false_iff]
  simp only [append_eq_ofBytes_iff, emitCount_eq_ofBytes_iff, TypeSig.emitEach_eq_map,
    concat_eq_ofBytes_iff, TypeSig.emit_eq_ofBytes_iff]
  constructor
  · rintro ⟨_, ⟨nonempty, front, back, counted, each, rfl⟩, rfl⟩
    exact ⟨front, back, nonempty, counted, each, rfl⟩
  · rintro ⟨front, back, nonempty, counted, each, rfl⟩
    exact ⟨_, ⟨nonempty, front, back, counted, each, rfl⟩, rfl⟩

/-- The lead byte of a property tells whether it belongs to an instance. -/
theorem propertyLead_eq (hasThis : Bool) :
    propertyLead hasThis = if hasThis then 0x28 else 0x08 := by
  cases hasThis <;> rfl

/-- A signature is written with the bytes that derive it with shortest integers. -/
theorem emit_eq_ofBytes_iff {signature : Signature} :
    signature.emit = .ofBytes bytes ↔ signature.Derives .shortest bytes := by
  cases signature with
  | method m =>
    rw [emit, MethodSig.emit_eq_ofBytes_iff]
    simp only [TypeSig.emit_eq_ofBytes_iff]
    constructor
    · intro h
      exact .method h
    · intro h
      cases h with
      | method derived => exact derived
  | field type =>
    rw [emit, byte_append_eq_ofBytes_iff]
    simp only [TypeSig.emit_eq_ofBytes_iff]
    constructor
    · rintro ⟨back, derived, rfl⟩
      exact .field derived
    · intro h
      cases h with
      | field derived => exact ⟨_, derived, rfl⟩
  | property hasThis type params =>
    rw [emit, Emission.append_assoc, Emission.append_assoc, byte_append_eq_ofBytes_iff,
      propertyLead_eq]
    simp only [append_eq_ofBytes_iff, emitCount_eq_ofBytes_iff, TypeSig.emitEach_eq_map,
      concat_eq_ofBytes_iff, TypeSig.emit_eq_ofBytes_iff]
    constructor
    · rintro ⟨_, ⟨first, _, counted, ⟨second, third, derived, each, rfl⟩, rfl⟩, rfl⟩
      exact .property counted derived each
    · intro h
      cases h with
      | property counted derived each =>
        exact ⟨_, ⟨_, _, counted, ⟨_, _, derived, each, rfl⟩, rfl⟩, rfl⟩
  | locals types =>
    rw [emit, emitList_eq_ofBytes_iff]
    constructor
    · rintro ⟨front, back, nonempty, counted, each, rfl⟩
      exact .locals nonempty counted each
    · intro h
      cases h with
      | locals nonempty counted each => exact ⟨_, _, nonempty, counted, each, rfl⟩
  | typeSpec type =>
    rw [emit, TypeSig.emit_eq_ofBytes_iff]
    constructor
    · intro h
      exact .typeSpec h
    · intro h
      cases h with
      | typeSpec derived => exact derived
  | methodSpec args =>
    rw [emit, emitList_eq_ofBytes_iff]
    constructor
    · rintro ⟨front, back, nonempty, counted, each, rfl⟩
      exact .methodSpec nonempty counted each
    · intro h
      cases h with
      | methodSpec nonempty counted each => exact ⟨_, _, nonempty, counted, each, rfl⟩

/-- What is written for a signature is what derives it with shortest integers. -/
theorem encode_eq_ok_iff {signature : Signature} :
    signature.encode = .ok bytes ↔ signature.Derives .shortest bytes :=
  toBlob_eq_ok_iff.trans emit_eq_ofBytes_iff

end Signature

end SignatureBlob
