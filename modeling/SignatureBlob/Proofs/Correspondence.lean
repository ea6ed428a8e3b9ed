import SignatureBlob.Signature.Decode

/-!
# Correspondence of readers

The rules of the grammar are the same for all readers. So a relation between readers of two kinds
that the ways to put readers together respect holds between all that the rules make of related
readers of types. It is shown here once for each rule, and no reader needs to go through the rules
again.

Main definition: `Reader.Correspondence`. Main statement: `Reader.Correspondence.signature`.
-/

namespace SignatureBlob.Reader

variable {m n : Type → Type} [Reader m] [Reader n]

/-- A relation between readers of two kinds that the ways to put readers together respect. -/
structure Correspondence (related : (α : Type) → m α → n α → Prop) : Prop where
  pure : ∀ {α : Type} (value : α), related α (pure value) (pure value)
  bind : ∀ {α β : Type} {first : m α} {first' : n α} {next : α → m β} {next' : α → n β},
    related α first first' → (∀ value, related β (next value) (next' value)) →
      related β (first >>= next) (first' >>= next')
  lift : ∀ {α : Type} (decoder : Decoder α), related α (liftM decoder) (liftM decoder)
  turn : ∀ {α : Type} {reader : m α} {reader' : n α}, related α reader reader' →
    related α (turn reader) (turn reader')
  tally : ∀ {α : Type} {reader : m α} {reader' : n α} (count : Nat) (length : α → Nat),
    related α reader reader' → related α (tally reader count length) (tally reader' count length)

namespace Correspondence

variable {related : (α : Type) → m α → n α → Prop} (law : Correspondence related) {α : Type}
  {item : m α} {item' : n α} {inner : m TypeSig} {inner' : n TypeSig}

include law

/-! ## Lists and shapes -/

/-- Values are read value by value. -/
theorem items (h : related α item item') (count : Nat) :
    related (List α) (items item count) (items item' count) := by
  induction count with
  | zero => exact law.pure []
  | succ count ih => exact law.bind (law.turn h) fun _ => law.bind ih fun _ => law.pure _

/-- A list is its values and a tally of them. -/
theorem list (h : related α item item') (count : Nat) :
    related (List α) (list item count) (list item' count) :=
  law.tally count List.length (law.items h count)

/-- A count that the rank forbids is refused by both. -/
theorem bounded (item : Decoder α) (rank : Nat) (defect : Nat → Nat → Defect) :
    related (List α) (bounded item rank defect) (bounded item rank defect) := by
  refine law.bind (law.lift _) fun count => ?_
  split
  · exact law.lift _
  · exact law.list (law.lift item) count.value

/-- A shape holds no types. -/
theorem shape : related ArrayShape shape shape := by
  refine law.bind (law.lift _) fun rank => ?_
  split
  · exact law.lift _
  · exact law.bind (law.bounded _ _ _) fun _ => law.bind (law.bounded _ _ _) fun _ => law.pure _

/-! ## Methods -/

/-- A turn in front of the sentinel. -/
theorem markOrParam (h : related TypeSig inner inner') (convention : Convention) :
    related (Option TypeSig) (markOrParam inner convention) (markOrParam inner' convention) := by
  refine law.bind (law.lift _) fun offset => law.bind (law.lift _) fun lead => ?_
  split
  · split
    · exact law.bind (law.lift _) fun _ => law.pure none
    · exact law.lift _
  · exact law.bind h fun _ => law.pure _

/-- A turn behind the sentinel. -/
theorem param (h : related TypeSig inner inner') (convention : Convention) :
    related TypeSig (param inner convention) (param inner' convention) := by
  refine law.bind (law.lift _) fun offset => law.bind (law.lift _) fun lead => ?_
  split
  · exact law.lift _
  · exact h

/-- Parameters are read turn by turn. -/
theorem params (h : related TypeSig inner inner') (convention : Convention) (count index : Nat) :
    related (List TypeSig × Option Nat) (params inner convention count index)
      (params inner' convention count index) := by
  induction count generalizing index with
  | zero => exact law.pure _
  | succ count ih =>
    refine law.bind (law.turn (law.markOrParam h convention)) fun found => ?_
    cases found with
    | none => exact law.bind (law.items (law.param h convention) _) fun _ => law.pure _
    | some param => exact law.bind (ih _) fun _ => law.pure _

/-- A method is its header, its count, its result and its parameters. -/
theorem method (h : related TypeSig inner inner') :
    related MethodSig (method inner) (method inner') := by
  refine law.bind (law.lift _) fun header => law.bind (law.lift _) fun count => ?_
  refine law.bind (law.tally count _ (law.bind h fun _ => ?_)) fun _ => law.pure _
  exact law.bind (law.tally count _ (law.params h header.convention count 0)) fun _ => law.pure _

/-! ## Types and signatures -/

/-- A list without members is refused by both. -/
theorem nonempty (h : related TypeSig inner inner') (ifEmpty : Defect) :
    related (List TypeSig) (nonempty inner ifEmpty) (nonempty inner' ifEmpty) := by
  refine law.bind (law.lift _) fun count => ?_
  split
  · exact law.lift _
  · exact law.list h count.value

/-- A modifier holds no types. -/
theorem modified (h : related TypeSig inner inner') (required : Bool) :
    related TypeSig (modified inner required) (modified inner' required) :=
  law.bind (law.lift _) fun _ => law.bind h fun _ => law.pure _

/-- What an element type announces, by the element type. -/
theorem body (h : related TypeSig inner inner') (element : ElementType) :
    related TypeSig (body inner element) (body inner' element) := by
  cases element with
  | primitive kind => exact law.pure _
  | pointer | byRef | vector | pinned => exact law.bind h fun _ => law.pure _
  | valueType | classType | typeParameter | methodParameter =>
    exact law.bind (law.lift _) fun _ => law.pure _
  | array => exact law.bind h fun _ => law.bind law.shape fun _ => law.pure _
  | instantiation =>
    exact law.bind (law.lift _) fun _ => law.bind (law.lift _) fun _ =>
      law.bind (law.nonempty h _) fun _ => law.pure _
  | functionPointer => exact law.bind (law.method h) fun _ => law.pure _
  | requiredModifier => exact law.modified h true
  | optionalModifier => exact law.modified h false

/-- A type is its element type and what that announces. -/
theorem typeWith (h : related TypeSig inner inner') :
    related TypeSig (typeWith inner) (typeWith inner') := by
  refine law.bind (law.lift _) fun offset => law.bind (law.lift _) fun lead => ?_
  cases ElementType.ofByte? lead with
  | none => exact law.lift _
  | some element => exact law.body h element

/-- A signature is read by the rule of its kind. -/
theorem signature (h : related TypeSig inner inner') (kind : SignatureKind) :
    related Signature (signature inner kind) (signature inner' kind) := by
  cases kind with
  | method => exact law.bind (law.method h) fun _ => law.pure _
  | field => exact law.bind (law.lift _) fun _ => law.bind h fun _ => law.pure _
  | property =>
    refine law.bind (law.lift _) fun _ => law.bind (law.lift _) fun count => ?_
    refine law.bind (law.tally count _ (law.bind h fun _ => ?_)) fun _ => law.pure _
    exact law.bind (law.list h count) fun _ => law.pure _
  | locals | methodSpec =>
    exact law.bind (law.lift _) fun _ => law.bind (law.nonempty h _) fun _ => law.pure _
  | typeSpec => exact law.bind h fun _ => law.pure _

end Correspondence

end SignatureBlob.Reader
