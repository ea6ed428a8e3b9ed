import SignatureBlob.Buffer
import SignatureBlob.Proofs.Emitting
import SignatureBlob.Proofs.TypeTree

/-!
# What is written into a buffer

A writer puts an emission at the end of the buffer, whatever the buffer holds: the bytes of the
emission, and its fault as an error at their end. Nothing that is in the buffer before matters, and
all of it stays. This holds of the ways to put writers together, and so of types.

Main definition: `Write.Puts`. Main statement: `TypeSig.puts_write`.
-/

namespace SignatureBlob

open CompressedInt Writer

/-! ## The ways to put writers together -/

namespace Write

/-- A writer that puts the emission at the end of every buffer. -/
def Puts (write : Write Unit) (emission : Emission) : Prop :=
  ∀ buffer, write buffer =
    ((emission.error? buffer.length).elim (.ok ()) .error, buffer ++ emission.bytes)

variable {first second : Write Unit} {emission other : Emission}

/-- Nothing is put into a buffer that nothing is written to. -/
theorem puts_empty : Puts empty empty := by
  intro buffer
  rw [show (empty : Emission).bytes = [] from rfl, List.append_nil]
  rfl

/-- Bytes are put there as they are. -/
theorem puts_ofBytes (bytes : List UInt8) : Puts (ofBytes bytes) (ofBytes bytes) := fun _ => rfl

/-- What has no encoding is reported at the end of the buffer. -/
theorem puts_fail (observed : UInt8) (defect : Defect) :
    Puts (fail observed defect) (fail observed defect) := by
  intro buffer
  rw [show (fail observed defect : Emission).bytes = [] from rfl, List.append_nil]
  rfl

/-- Behind a fault nothing is written. -/
theorem puts_append (hfirst : first.Puts emission) (hsecond : second.Puts other) :
    Puts (first ++ second) (emission ++ other) := by
  intro buffer
  have hrun := hfirst buffer
  cases hfault : emission.fault with
  | some fault =>
    rw [Emission.append_of_some hfault]
    simp only [Emission.error?, hfault, Option.map_some, Option.elim_some] at hrun ⊢
    exact run_bind_error hrun _
  | none =>
    simp only [Emission.error?, hfault, Option.map_none, Option.elim_none] at hrun
    show (first >>= fun _ => second : Write Unit) buffer = _
    rw [run_bind_ok hrun, hsecond, Emission.append_of_none hfault]
    simp only [Emission.error?, List.length_append, Nat.add_assoc, List.append_assoc]

/-- A condition is checked alike. -/
theorem puts_require (condition : Bool) (observed : UInt8) (defect : Defect) :
    Puts (require condition observed defect) (require condition observed defect) := by
  cases condition with
  | true => exact puts_empty
  | false => exact puts_fail observed defect

/-- One value is put behind the other. -/
theorem puts_concat {α : Type} {write : α → Write Unit} {emit : α → Emission} {values : List α}
    (h : ∀ value ∈ values, (write value).Puts (emit value)) :
    Puts (concat (values.map write)) (concat (values.map emit)) := by
  induction values with
  | nil => exact puts_empty
  | cons value values ih =>
    rw [List.forall_mem_cons] at h
    exact puts_append h.1 (ih h.2)

/-- Each case is put there as by itself. -/
theorem puts_ite {condition : Prop} [Decidable condition] {third : Write Unit}
    {another : Emission} (hthen : first.Puts emission) (helse : third.Puts another) :
    (if condition then first else third).Puts (if condition then emission else another) := by
  by_cases h : condition
  · rw [if_pos h, if_pos h]
    exact hthen
  · rw [if_neg h, if_neg h]
    exact helse

end Write

open Write

/-! ## Numbers, tokens and shapes -/

namespace CompressedInt

/-- Unsigned numbers are put there in their form, or reported. -/
theorem puts_unsigned (value : Nat) : Puts (putUnsigned value) (putUnsigned value) := by
  unfold putUnsigned
  cases Form.forUnsigned? value with
  | some form => exact puts_ofBytes _
  | none => exact puts_fail _ _

/-- So are signed numbers. -/
theorem puts_signed (value : Int) : Puts (putSigned value) (putSigned value) := by
  unfold putSigned
  cases Form.forSigned? value with
  | some form => exact puts_ofBytes _
  | none => exact puts_fail _ _

/-- A number of members is put there as any unsigned number, or is too large. -/
theorem puts_count (observed : UInt8) (listed : Listed) (count : Nat) :
    Puts (putCount observed listed count) (putCount observed listed count) :=
  puts_ite (puts_unsigned count) (puts_fail _ _)

end CompressedInt

/-- A token is put there as its code, if it has one. -/
theorem CodedToken.puts_token (token : Token) : Puts (put token) (put token) := by
  unfold put
  cases token.typeTable? with
  | some table => exact puts_unsigned _
  | none => exact puts_fail _ _

/-- The shape of an array is put there part by part. -/
theorem ArrayShape.puts_shape (shape : ArrayShape) : Puts shape.put shape.put := by
  refine puts_append (puts_append ?_ (puts_count _ _ _)) (puts_concat fun bound _ =>
    puts_signed bound)
  refine puts_append (puts_append ?_ (puts_count _ _ _)) (puts_concat fun size _ =>
    puts_unsigned size)
  exact puts_append (puts_append (puts_require _ _ _) (puts_require _ _ _)) (puts_unsigned _)

/-! ## Methods and types -/

namespace MethodHeader

/-- Parameters are put there one by one, with the mark where it belongs. -/
theorem puts_params (sentinel : Option Nat) (index : Nat) {params : List TypeSig}
    (h : ∀ param ∈ params, Puts param.put param.put) :
    Puts (putParams sentinel index (params.map TypeSig.put))
      (putParams sentinel index (params.map TypeSig.put)) := by
  induction params generalizing index with
  | nil => exact puts_empty
  | cons param params ih =>
    rw [List.forall_mem_cons] at h
    exact puts_append (puts_append (puts_ite (puts_ofBytes _) puts_empty) h.1) (ih (index + 1) h.2)

/-- A method is put there if its types are. -/
theorem puts_method (header : MethodHeader) {result : TypeSig} {params : List TypeSig}
    (hresult : Puts result.put result.put) (hparams : ∀ param ∈ params, Puts param.put param.put) :
    Puts (header.put result.put (params.map TypeSig.put))
      (header.put result.put (params.map TypeSig.put)) := by
  unfold put
  rw [List.length_map, List.length_map]
  refine puts_append (puts_append (puts_append ?_ (puts_count _ _ _)) hresult)
    (puts_params _ 0 hparams)
  refine puts_append (puts_append ?_ (puts_ofBytes _)) (puts_ite (puts_unsigned _) puts_empty)
  exact puts_append (puts_append (puts_require _ _ _) (puts_require _ _ _)) (puts_require _ _ _)

end MethodHeader

namespace TypeSig

/-- A type is written at the end of the buffer, as far as it can be, whatever the buffer holds. -/
theorem puts_write (type : TypeSig) : type.write.Puts type.emit := by
  induction type using induction_on_children with
  | step type ih =>
    have hannounce : ∀ (element : ElementType) {write : Write Unit} {emission : Emission},
        write.Puts emission → Puts (announce element write) (announce element emission) :=
      fun element _ _ => puts_append (puts_ofBytes [element.byte])
    cases type with
    | primitive kind => exact hannounce _ puts_empty
    | classType token | valueType token => exact hannounce _ (CodedToken.puts_token _)
    | vector inner | pointer inner | byRef inner | pinned inner =>
      exact hannounce _ (ih inner (by simp [children]))
    | array inner shape =>
      exact hannounce _ (puts_append (ih inner (by simp [children])) shape.puts_shape)
    | genericParam index ofMethod => exact hannounce _ (puts_unsigned _)
    | instantiation base isValueType args =>
      rw [write, emit, put, put, putEach_eq_map, putEach_eq_map]
      refine hannounce _ (puts_append (puts_append (puts_append ?_ (CodedToken.puts_token _))
        (puts_count _ _ _)) (puts_concat ih))
      exact puts_append (puts_require _ _ _) (puts_ofBytes _)
    | functionPointer header result params =>
      have hparams : ∀ param ∈ params, param.write.Puts param.emit :=
        fun param hparam => ih param (by simp [children, hparam])
      rw [write, emit, put, put, putEach_eq_map, putEach_eq_map]
      exact hannounce _ (header.puts_method (ih result (by simp [children])) hparams)
    | modified modifier required inner =>
      exact hannounce _ (puts_append (CodedToken.puts_token _) (ih inner (by simp [children])))

end TypeSig

end SignatureBlob
