import SignatureBlob.Proofs.Tracking
import SignatureBlob.Proofs.Writing

/-!
# What a failed writing leaves

A type that cannot be written leaves the bytes before the fault at the end of the buffer. They are
the beginning of some type, never a whole one, and end where the reader is to begin something new:
it lacks one byte there.

Main definition: `Emission.Mends`. Main statements: `TypeSig.exists_mends` (the beginning of some
type) and `TypeSig.write_appends_and_leaves`.
-/

namespace SignatureBlob

open CompressedInt

/-! ## Mending -/

namespace Emission

/-- The emission `mended` has no fault. It is the other one if this has no fault either, and goes on
behind its bytes otherwise. -/
structure Mends (mended emission : Emission) : Prop where
  fault_eq_none : mended.fault = none
  eq_of_none : emission.fault = none → mended = emission
  extends_of_some : emission.fault ≠ none → ∃ lead rest,
    mended.bytes = emission.bytes ++ lead :: rest

variable {mended emission mended' emission' : Emission}

/-- What has no fault mends itself. -/
theorem mends_refl (h : emission.fault = none) : emission.Mends emission :=
  ⟨h, fun _ => rfl, fun hsome => absurd h hsome⟩

/-- Where nothing has been written, whatever is written mends it. -/
theorem mends_of_bytes_eq_nil {lead : UInt8} {rest : List UInt8} (hsome : emission.fault ≠ none)
    (hnil : emission.bytes = []) : Mends (.ofBytes (lead :: rest)) emission :=
  ⟨rfl, fun hnone => absurd hnone hsome, fun _ => ⟨lead, rest, by rw [hnil]; rfl⟩⟩

/-- What stands behind a fault does not matter. -/
theorem mends_append_of_none (hfirst : mended.Mends emission) (hnone : mended'.fault = none)
    (hsecond : emission.fault = none → mended'.Mends emission') :
    (mended ++ mended').Mends (emission ++ emission') := by
  cases hfault : emission.fault with
  | some fault =>
    have hsome : emission.fault ≠ none := by
      rw [hfault]
      exact nofun
    obtain ⟨lead, rest, hbytes⟩ := hfirst.extends_of_some hsome
    rw [append_of_some hfault, append_of_none hfirst.fault_eq_none]
    refine ⟨hnone, fun h => absurd h hsome, fun _ => ⟨lead, rest ++ mended'.bytes, ?_⟩⟩
    rw [hbytes, List.append_assoc, List.cons_append]
  | none =>
    obtain rfl := hfirst.eq_of_none hfault
    obtain ⟨hfault', heq, hextends⟩ := hsecond hfault
    rw [append_of_none hfault, append_of_none hfault]
    refine ⟨hfault', fun h => by rw [heq h], fun h => ?_⟩
    obtain ⟨lead, rest, hbytes⟩ := hextends h
    exact ⟨lead, rest, by rw [hbytes, List.append_assoc]⟩

/-- Sequences are mended part by part. -/
theorem mends_append (hfirst : mended.Mends emission) (hsecond : mended'.Mends emission') :
    (mended ++ mended').Mends (emission ++ emission') :=
  mends_append_of_none hfirst hsecond.fault_eq_none fun _ => hsecond

/-- A check that fails leaves nothing. -/
theorem mends_require {condition : Bool} {observed : UInt8} {defect : Defect} {lead : UInt8}
    {rest : List UInt8} (hmended : mended = .ofBytes (lead :: rest))
    (h : condition = true → mended.Mends emission) :
    mended.Mends (.require condition observed defect ++ emission) := by
  cases condition with
  | true => exact h rfl
  | false =>
    rw [hmended]
    exact mends_of_bytes_eq_nil nofun rfl

/-- If each of some values can be mended, so can their list, with as many values. -/
theorem exists_mends_concat {α : Type} {emit : α → Emission} {values : List α}
    (h : ∀ value ∈ values, ∃ other, (emit other).Mends (emit value)) :
    ∃ others : List α, others.length = values.length ∧
      (concat (others.map emit)).Mends (concat (values.map emit)) := by
  induction values with
  | nil => exact ⟨[], rfl, mends_refl rfl⟩
  | cons value values ih =>
    rw [List.forall_mem_cons] at h
    obtain ⟨other, hother⟩ := h.1
    obtain ⟨others, hlength, hothers⟩ := ih h.2
    exact ⟨other :: others, congrArg Nat.succ hlength, mends_append hother hothers⟩

/-- A value that is written whole or not at all can be mended by any other that can be written. -/
theorem exists_mends_of_atomic {α : Type} {emit : α → Emission} (value : α) {other : α}
    {lead : UInt8} {rest : List UInt8} (hother : emit other = .ofBytes (lead :: rest))
    (hatomic : (emit value).Atomic) : ∃ other, (emit other).Mends (emit value) := by
  by_cases hnone : (emit value).fault = none
  · exact ⟨value, mends_refl hnone⟩
  · refine ⟨other, ?_⟩
    rw [hother]
    exact mends_of_bytes_eq_nil hnone (hatomic.eq_nil hnone)

end Emission

open Emission

/-! ## Parts of types -/

/-- Any unsigned number can be mended, by zero if it is too large. -/
theorem CompressedInt.exists_mends_unsigned (value : Nat) :
    ∃ other, (emitUnsigned other).Mends (emitUnsigned value) :=
  exists_mends_of_atomic value (show emitUnsigned 0 = .ofBytes [0] by rfl)
    (atomic_emitUnsigned value)

/-- Any signed number can be mended, by zero if it is out of range. -/
theorem CompressedInt.exists_mends_signed (value : Int) :
    ∃ other, (emitSigned other).Mends (emitSigned value) :=
  exists_mends_of_atomic value (show emitSigned 0 = .ofBytes [0] by rfl) (atomic_emitSigned value)

/-- Any token can be mended, by a zero if it cannot be coded. -/
theorem CodedToken.exists_mends (token : Token) : ∃ other, (emit other).Mends (emit token) :=
  exists_mends_of_atomic token (show emit (.ofParts .typeDef 0) = .ofBytes [0] by rfl)
    (atomic_emit token)

/-- A number of members is written if it fits in the widest form. -/
theorem CompressedInt.fault_emitCount_iff {observed : UInt8} {listed : Listed} {count : Nat} :
    (emitCount observed listed count).fault = none ↔ count ≤ maxUnsigned := by
  constructor
  · intro hnone
    have hbytes : emitCount observed listed count =
        .ofBytes (emitCount observed listed count).bytes := Emission.ext rfl hnone
    exact (emitCount_eq_ofBytes_iff.1 hbytes).le_maxUnsigned
  · intro hle
    obtain ⟨bytes, hbytes⟩ := exists_derivesUnsigned_iff.2 hle
    rw [emitCount_eq_ofBytes_iff.2 hbytes]
    rfl

/-- A number of members that is too large is mended by any other. -/
theorem CompressedInt.mends_emitCount {observed : UInt8} {listed : Listed} {count count' : Nat}
    (hmany : ¬ count ≤ maxUnsigned) (hle : count' ≤ maxUnsigned) :
    (emitCount observed listed count').Mends (emitCount observed listed count) := by
  have hsome : (emitCount observed listed count).fault ≠ none := mt fault_emitCount_iff.1 hmany
  have hnone : (emitCount observed listed count').fault = none := fault_emitCount_iff.2 hle
  rcases atomic_emitCount observed listed count' with ⟨lead, rest, hemit⟩ | ⟨fault, hemit⟩
  · rw [hemit]
    exact mends_of_bytes_eq_nil hsome ((atomic_emitCount _ _ _).eq_nil hsome)
  · rw [hemit] at hnone
    cases hnone

/-- A number that fits in the widest form is written without a fault. -/
theorem CompressedInt.fault_emitUnsigned {value : Nat} (h : value ≤ maxUnsigned) :
    (emitUnsigned value).fault = none := by
  obtain ⟨bytes, hbytes⟩ := exists_derivesUnsigned_iff.2 h
  rw [emitUnsigned_eq_ofBytes_iff.2 hbytes]
  rfl

/-- Any shape of an array can be mended. -/
theorem ArrayShape.exists_mends (shape : ArrayShape) : ∃ other : ArrayShape,
    other.emit.Mends shape.emit := by
  obtain ⟨rank, sizes, lowerBounds⟩ := shape
  by_cases hfits : (0 < rank ∧ rank ≤ maxRank) ∧ sizes.length ≤ rank ∧ lowerBounds.length ≤ rank
  · obtain ⟨hrank, hlengths⟩ := hfits
    have hsizes : ∃ sizes' : List Nat, sizes'.length = sizes.length ∧
        (concat (sizes'.map emitUnsigned)).Mends (concat (sizes.map emitUnsigned)) :=
      exists_mends_concat fun size _ => exists_mends_unsigned size
    have hbounds : ∃ bounds' : List Int, bounds'.length = lowerBounds.length ∧
        (concat (bounds'.map emitSigned)).Mends (concat (lowerBounds.map emitSigned)) :=
      exists_mends_concat fun bound _ => exists_mends_signed bound
    obtain ⟨sizes', hsizes', hmends⟩ := hsizes
    obtain ⟨bounds', hbounds', hmends'⟩ := hbounds
    have hmax : rank ≤ maxUnsigned := Nat.le_trans hrank.2 (by decide)
    have hcount : ∀ listed : Listed, ∀ count ≤ rank,
        (emitCount ElementType.array.byte listed count).fault = none :=
      fun _ _ hle => fault_emitCount_iff.2 (Nat.le_trans hle hmax)
    refine ⟨⟨rank, sizes', bounds'⟩, ?_⟩
    simp only [emit_eq, hsizes', hbounds', hrank, hlengths, and_self,
      decide_true, require_true, empty_append]
    refine mends_append (mends_refl (fault_emitUnsigned hmax)) ?_
    refine mends_append (mends_refl (hcount _ _ hlengths.1)) (mends_append hmends ?_)
    exact mends_append (mends_refl (hcount _ _ hlengths.2)) hmends'
  · have hother : emit ⟨1, [], []⟩ = .ofBytes [1, 0, 0] := rfl
    refine ⟨⟨1, [], []⟩, ?_⟩
    rw [emit_eq] at hother
    rw [emit_eq, emit_eq]
    refine mends_require hother fun hrank => mends_require hother fun hlengths => ?_
    exact absurd ⟨of_decide_eq_true hrank, of_decide_eq_true hlengths⟩ hfits

/-! ## Methods -/

namespace MethodHeader

/-- Parameters that are mended one by one. -/
theorem exists_mends_params (sentinel : Option Nat) {params : List TypeSig}
    (h : ∀ param ∈ params, ∃ other : TypeSig, other.emit.Mends param.emit) :
    ∃ others : List TypeSig, others.length = params.length ∧
      (emitParams sentinel (others.map TypeSig.emit)).Mends
        (emitParams sentinel (params.map TypeSig.emit)) := by
  induction params generalizing sentinel with
  | nil => exact ⟨[], rfl, by cases sentinel <;> exact mends_refl rfl⟩
  | cons param params ih =>
    rw [List.forall_mem_cons] at h
    obtain ⟨other, hother⟩ := h.1
    -- the cases of the sentinel differ in what stands in front of the first parameter
    have hcons : ∀ sentinel sentinel' front, (∀ param params,
        emitParams sentinel (param :: params) = front ++ param ++ emitParams sentinel' params) →
        front.fault = none → ∃ others : List TypeSig, others.length = (param :: params).length ∧
          (emitParams sentinel (others.map TypeSig.emit)).Mends
            (emitParams sentinel ((param :: params).map TypeSig.emit)) := by
      intro sentinel sentinel' front hemit hfront
      obtain ⟨others, hlength, hothers⟩ := ih sentinel' h.2
      refine ⟨other :: others, congrArg Nat.succ hlength, ?_⟩
      rw [List.map_cons, List.map_cons, hemit, hemit]
      exact mends_append (mends_append (mends_refl hfront) hother) hothers
    match sentinel with
    | none => exact hcons none none .empty (fun _ _ => rfl) rfl
    | some 0 => exact hcons (some 0) none (.byte ElementType.sentinelByte) (fun _ _ => rfl) rfl
    | some (index + 1) => exact hcons (some (index + 1)) (some index) .empty (fun _ _ => rfl) rfl

/-- What the writer checks of a header before it writes anything of the method. -/
def Checked (header : MethodHeader) (count : Nat) : Prop :=
  (!header.explicitThis || header.hasThis) = true ∧ (header.generic || header.arity == 0) = true ∧
    header.sentinelFits count = true

/-- A method that passes its checks is written part by part. -/
theorem emit_of_checked {header : MethodHeader} {result : Emission} {params : List Emission}
    (h : header.Checked params.length) :
    header.emit result params = .byte header.byte
      ++ ((if header.generic then emitUnsigned header.arity else .empty)
      ++ (emitCount header.byte .parameters params.length
      ++ (result ++ emitParams header.sentinel params))) := by
  obtain ⟨hinstance, harity, hfits⟩ := h
  simp only [emit_eq, emitChecks_eq, hinstance, harity, hfits, require_true, empty_append]

/-- The number of generic parameters is written only if the method has them. -/
theorem exists_mends_arity (header : MethodHeader)
    (h : (header.generic || header.arity == 0) = true) :
    ∃ arity, (header.generic || arity == 0) = true ∧
      (if header.generic then emitUnsigned arity else .empty : Emission).Mends
        (if header.generic then emitUnsigned header.arity else .empty) := by
  cases hgeneric : header.generic with
  | false =>
    rw [hgeneric] at h
    exact ⟨header.arity, h, mends_refl rfl⟩
  | true =>
    obtain ⟨arity, harity⟩ := exists_mends_unsigned header.arity
    exact ⟨arity, rfl, harity⟩

variable {header : MethodHeader} {arity : Nat} {sentinel : Option Nat} {result result' : Emission}
  {params params' : List Emission}

/-- A method with another number of generic parameters, another sentinel and other types, of which
what stands behind a list that is too long does not matter. -/
theorem mends_emit (h : header.Checked params.length)
    (h' : { header with arity, sentinel }.Checked params'.length)
    (harity : (if header.generic then emitUnsigned arity else .empty : Emission).Mends
      (if header.generic then emitUnsigned header.arity else .empty))
    (hcount : (emitCount header.byte .parameters params'.length).Mends
      (emitCount header.byte .parameters params.length))
    (hresult : result'.Mends result) (hparams : (emitParams sentinel params').fault = none)
    (hmends : (emitCount header.byte .parameters params.length).fault = none →
      (emitParams sentinel params').Mends (emitParams header.sentinel params)) :
    ({ header with arity, sentinel }.emit result' params').Mends (header.emit result params) := by
  rw [emit_of_checked h, emit_of_checked h']
  refine mends_append (mends_refl rfl) (mends_append harity ?_)
  refine mends_append_of_none hcount ?_ ?_
  · rw [append_of_none hresult.fault_eq_none]
    exact hparams
  · intro hnone
    exact mends_append hresult (hmends hnone)

end MethodHeader

/-- A method is mended by another if its types are: with as many parameters, or with none if they
are too many to be counted. -/
theorem MethodSig.exists_mends (header : MethodHeader) {result : TypeSig} {params : List TypeSig}
    (hresult : ∃ other : TypeSig, other.emit.Mends result.emit)
    (hparams : ∀ param ∈ params, ∃ other : TypeSig, other.emit.Mends param.emit) :
    ∃ other : MethodSig, other.emit.Mends (header.emit result.emit (params.map TypeSig.emit)) := by
  have hlengths : ∀ types : List TypeSig, (types.map TypeSig.emit).length = types.length :=
    fun types => List.length_map TypeSig.emit
  by_cases hchecked : header.Checked params.length
  · obtain ⟨hinstance, hnumber, hfits⟩ := id hchecked
    obtain ⟨arity, hnumber', harity⟩ := header.exists_mends_arity hnumber
    obtain ⟨result', hresult⟩ := hresult
    by_cases hcount : params.length ≤ maxUnsigned
    · obtain ⟨params', hlength, hparams⟩ :=
        MethodHeader.exists_mends_params header.sentinel hparams
      refine ⟨⟨{ header with arity }, result', params'⟩, ?_⟩
      rw [emit_eq]
      refine MethodHeader.mends_emit ?_ ?_ harity ?_ hresult hparams.fault_eq_none fun _ => hparams
      · rwa [hlengths]
      · rw [hlengths, hlength]
        exact ⟨hinstance, hnumber', hfits⟩
      · rw [hlengths, hlengths, hlength]
        exact mends_refl (fault_emitCount_iff.2 hcount)
    -- nothing is written behind a number that is too large, so that no parameters will do
    · refine ⟨⟨{ header with arity, sentinel := none }, result', []⟩, ?_⟩
      rw [emit_eq]
      refine MethodHeader.mends_emit ?_ ⟨hinstance, hnumber', rfl⟩ harity ?_ hresult rfl ?_
      · rwa [hlengths]
      · rw [hlengths, hlengths]
        exact mends_emitCount hcount (Nat.zero_le _)
      · rw [hlengths]
        exact fun hnone => absurd (fault_emitCount_iff.1 hnone) hcount
  · have hother : MethodSig.emit {} = .ofBytes [0, 0, 1] := rfl
    refine ⟨{}, ?_⟩
    rw [MethodHeader.emit_eq, MethodHeader.emitChecks_eq]
    simp only [Emission.append_assoc, hlengths]
    refine mends_require hother fun hinstance => mends_require hother fun hnumber => ?_
    refine mends_require hother fun hfits => ?_
    exact absurd ⟨hinstance, hnumber, hfits⟩ hchecked

/-! ## Types -/

namespace TypeSig

/-- What is behind the byte of an element type is mended by itself. -/
theorem mends_announce {element : ElementType} {mended rest : Emission} (h : mended.Mends rest) :
    (announce element mended).Mends (announce element rest) :=
  mends_append (mends_refl rfl) h

/-- Arguments that are too many to be counted are mended by a single one. -/
theorem exists_mends_arguments (observed : UInt8) (listed : Listed) {args : List TypeSig}
    (hne : args ≠ []) (h : ∀ arg ∈ args, ∃ other : TypeSig, other.emit.Mends arg.emit) :
    ∃ others : List TypeSig, others.isEmpty = false ∧
      (emitCount observed listed others.length ++ concat (others.map emit)).Mends
        (emitCount observed listed args.length ++ concat (args.map emit)) := by
  by_cases hcount : args.length ≤ maxUnsigned
  · obtain ⟨others, hlength, hothers⟩ := exists_mends_concat h
    refine ⟨others, ?_, ?_⟩
    · rw [List.isEmpty_eq_false_iff, Ne, ← List.length_eq_zero_iff, hlength,
        List.length_eq_zero_iff]
      exact hne
    · rw [hlength]
      exact mends_append (mends_refl (fault_emitCount_iff.2 hcount)) hothers
  · refine ⟨[primitive .void], rfl, mends_append_of_none ?_ rfl ?_⟩
    · exact mends_emitCount hcount (by decide)
    · exact fun hnone => absurd (fault_emitCount_iff.1 hnone) hcount

/-- What is written for a type, up to its fault if it has one, is the beginning of some type. -/
theorem exists_mends (type : TypeSig) : ∃ other : TypeSig, other.emit.Mends type.emit := by
  induction type using induction_on_children with
  | step type ih =>
    cases type with
    | primitive kind => exact ⟨primitive kind, mends_refl rfl⟩
    | classType token =>
      obtain ⟨token', htoken⟩ := CodedToken.exists_mends token
      exact ⟨classType token', mends_announce htoken⟩
    | valueType token =>
      obtain ⟨token', htoken⟩ := CodedToken.exists_mends token
      exact ⟨valueType token', mends_announce htoken⟩
    | vector inner =>
      obtain ⟨inner', hinner⟩ := ih inner (by simp [children])
      exact ⟨vector inner', mends_announce hinner⟩
    | array inner shape =>
      obtain ⟨inner', hinner⟩ := ih inner (by simp [children])
      obtain ⟨shape', hshape⟩ := shape.exists_mends
      exact ⟨array inner' shape', mends_announce (mends_append hinner hshape)⟩
    | pointer inner =>
      obtain ⟨inner', hinner⟩ := ih inner (by simp [children])
      exact ⟨pointer inner', mends_announce hinner⟩
    | byRef inner =>
      obtain ⟨inner', hinner⟩ := ih inner (by simp [children])
      exact ⟨byRef inner', mends_announce hinner⟩
    | genericParam index ofMethod =>
      obtain ⟨index', hindex⟩ := exists_mends_unsigned index
      exact ⟨genericParam index' ofMethod, mends_announce hindex⟩
    | instantiation base isValueType args =>
      by_cases hargs : args = []
      · subst hargs
        refine ⟨instantiation (.ofParts .typeDef 0) false [primitive .void], mends_announce ?_⟩
        exact mends_of_bytes_eq_nil (Option.some_ne_none _) rfl
      obtain ⟨base', hbase⟩ := CodedToken.exists_mends base
      obtain ⟨args', hne, hmends⟩ := exists_mends_arguments ElementType.instantiation.byte
        .typeArguments hargs ih
      refine ⟨instantiation base' isValueType args', ?_⟩
      rw [emit_instantiation, emit_instantiation, hne, List.isEmpty_eq_false_iff.2 hargs]
      refine mends_announce (mends_append (mends_refl rfl) (mends_append (mends_refl rfl) ?_))
      exact mends_append hbase hmends
    | functionPointer header result params =>
      obtain ⟨method, hmethod⟩ := MethodSig.exists_mends header (ih result List.mem_cons_self)
        fun param hparam => ih param (List.mem_cons_of_mem _ hparam)
      refine ⟨method.pointer, ?_⟩
      rw [MethodSig.pointer, emit_functionPointer, emit_functionPointer, ← MethodSig.emit_eq]
      exact mends_announce hmethod
    | modified modifier required inner =>
      obtain ⟨modifier', hmodifier⟩ := CodedToken.exists_mends modifier
      obtain ⟨inner', hinner⟩ := ih inner (by simp [children])
      exact ⟨modified modifier' required inner', mends_announce (mends_append hmodifier hinner)⟩
    | pinned inner =>
      obtain ⟨inner', hinner⟩ := ih inner (by simp [children])
      exact ⟨pinned inner', mends_announce hinner⟩

/-- What is left of a type that cannot be written makes the reader lack one byte at its end, if as
many levels may be read as the type has. -/
theorem run_decode_of_fault {type : TypeSig} (hsome : type.emit.fault ≠ none)
    {options : DecodeOptions} (hdepth : type.depth ≤ options.maxDepth) :
    (decode options).run (.start type.emit.bytes) =
      .error (.truncated type.emit.bytes.length 1 0) ⟨type.emit.bytes.length, []⟩ := by
  have hstalls := (tracks_decodeWithin options.limit
    (Nat.le_trans hdepth options.maxDepth_le_limit)).stalls hsome 0
  rwa [Nat.zero_add] at hstalls

/-- No options make a type of what is left. -/
theorem run_decode_ne_ok_of_fault {type : TypeSig} (hsome : type.emit.fault ≠ none)
    (options : DecodeOptions) (other : TypeSig) (stop : Cursor) :
    (decode options).run (.start type.emit.bytes) ≠ .ok other stop := by
  intro hrun
  obtain ⟨bytes, ⟨hderives, _⟩, hbytes⟩ := run_decode_eq_ok_iff.1 hrun
  -- with levels enough for both types the reader would lack a byte and not lack it
  have hdepth : other.depth ≤ DecodeOptions.limit ⟨max type.depth other.depth, false⟩ :=
    Nat.le_trans (Nat.le_max_right type.depth other.depth)
      (DecodeOptions.maxDepth_le_limit ⟨max type.depth other.depth, false⟩)
  have hdeep : (decode ⟨max type.depth other.depth, false⟩).run (.start type.emit.bytes) =
      .ok other stop :=
    run_decode_eq_ok_iff.2 ⟨bytes, ⟨hderives, hdepth⟩, hbytes⟩
  rw [run_decode_of_fault hsome (Nat.le_max_left _ _)] at hdeep
  cases hdeep

/-- A type is written behind what the buffer holds, and the bytes written and the fault are the same
for all buffers. If there is a fault, its place is the end of the buffer, and something has been
written. With as many levels as the type has, a reader of this alone lacks one byte at its end; with
no options does it read a type; and more bytes make a type of it. -/
theorem write_appends_and_leaves (type : TypeSig) :
    ∃ (written : List UInt8) (failure : Option Fault),
      (∀ buffer, type.write buffer =
        (failure.elim (.ok ()) fun fault => .error (.invalidEncoding
          (buffer.length + written.length) fault.observed fault.defect), buffer ++ written)) ∧
      (failure ≠ none → written ≠ [] ∧
        (∀ options : DecodeOptions, type.depth ≤ options.maxDepth →
          (decode options).run (.start written) =
            .error (.truncated written.length 1 0) ⟨written.length, []⟩) ∧
        (∀ options other stop, (decode options).run (.start written) ≠ .ok other stop) ∧
        ∃ other rest, rest ≠ [] ∧ ∀ options : DecodeOptions, other.depth ≤ options.maxDepth →
          (decode options).run (.start (written ++ rest)) =
            .ok other ⟨(written ++ rest).length, []⟩) := by
  -- the emission holds what is written and why it ended, and knows of no buffer
  refine ⟨type.emit.bytes, type.emit.fault, ?_, fun hsome => ⟨?_, ?_, ?_, ?_⟩⟩
  · intro buffer
    rw [type.puts_write buffer, Emission.error?]
    cases type.emit.fault <;> rfl
  · obtain ⟨tail, hbytes⟩ := type.exists_emit_append_bytes .empty
    rw [Emission.append_empty] at hbytes
    rw [hbytes]
    exact List.cons_ne_nil _ _
  · exact fun options hdepth => run_decode_of_fault hsome hdepth
  · exact run_decode_ne_ok_of_fault hsome
  · obtain ⟨other, hother⟩ := type.exists_mends
    obtain ⟨lead, rest, hbytes⟩ := hother.extends_of_some hsome
    refine ⟨other, lead :: rest, List.cons_ne_nil _ _, fun options hdepth => ?_⟩
    have hemit : other.emit = .ofBytes other.emit.bytes := Emission.ext rfl hother.fault_eq_none
    rw [← hbytes]
    exact run_decode_self (emit_eq_ofBytes_iff.1 hemit)
      (Nat.le_trans hdepth options.maxDepth_le_limit)

/-- A pointer to a method whose second parameter has no token. The writing ends behind the sentinel
and the byte of a class. -/
theorem write_appends_and_leaves_sentinel :
    (functionPointer { convention := .varArg, sentinel := some 1 } (.primitive .void)
        [.primitive .int32, .classType ⟨0⟩]).write [0xFF] =
      (.error (.invalidEncoding 8 0x00 (.tokenTable ⟨0⟩)),
        [0xFF, 0x1B, 0x05, 0x02, 0x01, 0x08, 0x41, 0x12]) ∧
    (decode ⟨2, false⟩).run (.start [0x1B, 0x05, 0x02, 0x01, 0x08, 0x41, 0x12]) =
      .error (.truncated 7 1 0) ⟨7, []⟩ := by
  obtain ⟨written, failure, hwrite, hleft⟩ := write_appends_and_leaves
    (functionPointer { convention := .varArg, sentinel := some 1 } (.primitive .void)
      [.primitive .int32, .classType ⟨0⟩])
  have hrun : (functionPointer { convention := .varArg, sentinel := some 1 } (.primitive .void)
      [.primitive .int32, .classType ⟨0⟩]).write [0xFF] =
        (.error (.invalidEncoding 8 0x00 (.tokenTable ⟨0⟩)),
          [0xFF, 0x1B, 0x05, 0x02, 0x01, 0x08, 0x41, 0x12]) := rfl
  refine ⟨hrun, ?_⟩
  rw [hwrite] at hrun
  obtain rfl : written = [0x1B, 0x05, 0x02, 0x01, 0x08, 0x41, 0x12] :=
    (List.cons.inj (Prod.ext_iff.1 hrun).2).2
  have hfails : failure ≠ none := by
    rintro rfl
    cases (Prod.ext_iff.1 hrun).1
  exact (hleft hfails).2.1 ⟨2, false⟩ (by decide)

end TypeSig

end SignatureBlob
