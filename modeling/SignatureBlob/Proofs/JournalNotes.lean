import Mathlib.Algebra.BigOperators.Group.Multiset.Basic
import Mathlib.Tactic.Abel
import SignatureBlob.Proofs.Journal
import SignatureBlob.Proofs.Outlay

/-!
# What a journal notes

The journal of a run that succeeds leaves nothing out. It notes a turn for each type that was read,
at all depths, for each member of a list and for each mark of a sentinel; and it notes each list
with the number of its members, those of the parameters at both of their places.

What is noted adds up along a sequence, whatever was noted before. So for each rule it is said what
the journal comes to, given what it was in front of the rule.

Main definitions: `TypeSig.loops` and `TypeSig.lists`. Main statement: `Subject.journal_complete`.
-/

namespace SignatureBlob

open Decoder

/-! ## Notes -/

/-- A number of turns, and the numbers of members of some lists in any order. -/
abbrev Notes := Nat × Multiset Nat

namespace Notes

/-- The notes of some turns and some lists. -/
def of (turns : Nat) (lengths : List Nat) : Notes := (turns, lengths)

/-- Notes that are taken together add up. -/
theorem of_add (turns turns' : Nat) (lengths lengths' : List Nat) :
    of (turns + turns') (lengths ++ lengths') = of turns lengths + of turns' lengths' :=
  Prod.ext rfl (Multiset.coe_add lengths lengths').symm

/-- One turn more. -/
theorem of_succ (turns : Nat) : of (turns + 1) [] = of turns [] + of 1 [] := of_add turns 1 [] []

/-- A list behind some turns. -/
theorem of_singleton (turns length : Nat) : of turns [length] = of turns [] + of 0 [length] :=
  of_add turns 0 [] [length]

/-- The same number once more. -/
theorem of_pair (turns length : Nat) :
    of turns [length, length] = of turns [length] + of 0 [length] :=
  of_add turns 0 [length] [length]

end Notes

/-- How many turns a journal has, and how many members the lists in it. -/
def Journal.notes (journal : Journal) : Notes :=
  .of journal.turns.length (journal.tallies.map Tally.length)

/-- The notes of one journal behind another add up. -/
theorem Journal.notes_append (first second : Journal) :
    (first ++ second).notes = first.notes + second.notes := by
  rw [notes, notes, notes, ← Notes.of_add, ← List.length_append, ← List.map_append]
  rfl

/-! ## What there is to note -/

/-- The turns of the loops in the rule of a method: one for each parameter, and one for the mark. -/
def MethodSig.loops (method : MethodSig) : Nat :=
  method.params.length + if method.header.sentinel.isSome then 1 else 0

/-- The parameters of a method are counted behind their number and where they begin. -/
def MethodSig.lists (method : MethodSig) : List Nat := [method.params.length, method.params.length]

namespace TypeSig

/-- The turns of the loops in the rule of a type itself. -/
def loops : TypeSig → Nat
  | array _ shape => shape.sizes.length + shape.lowerBounds.length
  | instantiation _ _ args => args.length
  | functionPointer header result params => (MethodSig.mk header result params).loops
  | _ => 0

/-- The numbers of members of the lists in the rule of a type itself. -/
def lists : TypeSig → List Nat
  | array _ shape => [shape.sizes.length, shape.lowerBounds.length]
  | instantiation _ _ args => [args.length]
  | functionPointer header result params => (MethodSig.mk header result params).lists
  | _ => []

/-- What is noted for some types: their calls, their loops and their lists. -/
def notesOf (types : List TypeSig) : Notes :=
  (types.map fun type => Notes.of (1 + type.loops) type.lists).sum

/-- What is noted for a type and all types inside. -/
def notes (type : TypeSig) : Notes := notesOf type.nodes

/-- What is noted for types is what is noted for each of them. -/
theorem notesOf_flatMap_nodes (types : List TypeSig) :
    notesOf (types.flatMap nodes) = (types.map notes).sum := by
  induction types with
  | nil => rfl
  | cons type types ih =>
    rw [List.flatMap_cons, notesOf, List.map_append, List.sum_append, List.map_cons, List.sum_cons,
      ← ih]
    rfl

/-- What is noted for a type is what is noted for itself and for its children. -/
theorem notes_eq (type : TypeSig) :
    type.notes = .of 1 [] + ((type.children.map notes).sum + .of type.loops type.lists) := by
  have hnodes : type.notes = .of (1 + type.loops) type.lists +
      notesOf (type.children.flatMap nodes) := by
    rw [notes, notesOf, nodes_eq, List.map_cons, List.sum_cons]
    rfl
  rw [hnodes, notesOf_flatMap_nodes, ← List.nil_append type.lists, Notes.of_add, List.nil_append]
  abel

/-- The turns and the lists of some types, by themselves. -/
theorem notesOf_eq (types : List TypeSig) :
    notesOf types = .of (types.length + (types.map loops).sum) (types.flatMap lists) := by
  induction types with
  | nil => rfl
  | cons type types ih =>
    have hturns : (type :: types).length + ((type :: types).map loops).sum =
        1 + type.loops + (types.length + (types.map loops).sum) := by
      simp only [List.length_cons, List.map_cons, List.sum_cons]
      omega
    rw [hturns, List.flatMap_cons, Notes.of_add, ← ih]
    rfl

end TypeSig

namespace Signature

/-- The turns of the loops in the rule of a signature itself. -/
def loops : Signature → Nat
  | method whole => whole.loops
  | property _ _ params => params.length
  | locals types | methodSpec types => types.length
  | field _ | typeSpec _ => 0

/-- The numbers of members of the lists in the rule of a signature itself. -/
def lists : Signature → List Nat
  | method whole => whole.lists
  | property _ _ params => [params.length, params.length]
  | locals types | methodSpec types => [types.length]
  | field _ | typeSpec _ => []

/-- What is noted for a signature and all types inside. -/
def notes (signature : Signature) : Notes :=
  (signature.types.map TypeSig.notes).sum + .of signature.loops signature.lists

end Signature

namespace Recorder

variable {α β : Type}

/-! ## What a journal comes to -/

/-- What was noted before a successful run, and what is noted in it, come to `after`. -/
def Adds (before : Notes) (recorder : Recorder α) (after : α → Notes) : Prop :=
  ∀ start value stop, recorder.decoder.run start = .ok value stop →
    before + (recorder.journal start).notes = after value

variable {before : Notes} {after : α → Notes} {recorder : Recorder α}

/-- Nothing is noted of a value that is given back. -/
theorem adds_pure {value : α} (h : before = after value) :
    (pure value : Recorder α).Adds before after := by
  intro start result stop hrun
  obtain ⟨rfl, -⟩ := Outcome.ok.inj hrun
  exact (add_zero before).trans h

/-- Nothing is noted of a decoder. -/
theorem adds_lift (decoder : Decoder α) :
    (liftM decoder : Recorder α).Adds before fun _ => before :=
  fun _ _ _ _ => add_zero before

/-- What fails comes to anything. -/
theorem adds_fail (error : Error) :
    (liftM (fail error : Decoder α) : Recorder α).Adds before after :=
  fun _ _ _ hrun => nomatch hrun

namespace Adds

/-- Only what it comes to matters. -/
theorem congr {after' : α → Notes} (h : recorder.Adds before after)
    (heq : ∀ value, after value = after' value) : recorder.Adds before after' :=
  fun start value stop hrun => (h start value stop hrun).trans (heq value)

/-- What is noted does not depend on what was noted before. -/
theorem behind (h : recorder.Adds 0 after) (before : Notes) :
    recorder.Adds before fun value => before + after value := by
  intro start value stop hrun
  have hnotes := h start value stop hrun
  rw [zero_add] at hnotes
  exact congrArg (before + ·) hnotes

/-- Notes add up along a sequence. -/
theorem bind {next : α → Recorder β} {last : β → Notes} (h : recorder.Adds before after)
    (hnext : ∀ value, (next value).Adds (after value) last) :
    (recorder >>= next).Adds before last := by
  intro start result stop hrun
  obtain ⟨value, middle, hvalue, hresult⟩ := run_bind_eq_ok_iff.1 hrun
  rw [journal_bind_ok hvalue, Journal.notes_append, ← add_assoc, h start value middle hvalue,
    hnext value middle result stop hresult]

/-- A call or a turn is noted in front of what is noted in it. -/
theorem turn (h : recorder.Adds (before + .of 1 []) after) : recorder.turn.Adds before after := by
  intro start value stop hrun
  rw [← h start value stop hrun, add_assoc]
  exact congrArg (before + ·) (Journal.notes_append _ _)

/-- A list is noted behind what is noted of its members. -/
theorem tally {length : α → Nat} (h : recorder.Adds before after) (count : Nat) :
    (recorder.tally count length).Adds before fun value => after value + .of 0 [length value] := by
  intro start value stop hrun
  have hvalue : recorder.decoder.run start = .ok value stop := hrun
  rw [journal_tally_ok hvalue, Journal.notes_append, ← add_assoc, h start value stop hvalue]
  rfl

/-! ## Lists and shapes -/

/-- Each member of a list is noted in its turn. -/
theorem items (h : recorder.Adds 0 after) (before : Notes) (count : Nat) :
    (Reader.items recorder count).Adds before fun values =>
      before + (.of values.length [] + (values.map after).sum) := by
  induction count generalizing before with
  | zero => exact adds_pure (add_zero before).symm
  | succ count ih =>
    refine (h.behind _).turn.bind fun value => (ih _).bind fun values => adds_pure ?_
    rw [List.length_cons, Notes.of_succ values.length, List.map_cons, List.sum_cons]
    abel

/-- A list is noted with its members. -/
theorem list (h : recorder.Adds 0 after) (before : Notes) (count : Nat) :
    (Reader.list recorder count).Adds before fun values =>
      before + ((values.map after).sum + .of values.length [values.length]) := by
  refine ((h.items before count).tally count).congr fun values => ?_
  rw [Notes.of_singleton values.length]
  abel

end Adds

/-- A list of numbers is noted by itself. -/
theorem adds_bounded (item : Decoder α) (rank : Nat) (defect : Nat → Nat → Defect) :
    (Reader.bounded item rank defect : Recorder (List α)).Adds before fun values =>
      before + .of values.length [values.length] := by
  refine (adds_lift _).bind fun count => ?_
  split
  · exact adds_fail _
  · refine ((adds_lift item).list before count.value).congr fun values => ?_
    rw [List.map_const', List.sum_replicate, nsmul_zero, zero_add]

/-- The sizes of an array and its lower bounds are two lists of numbers. -/
theorem adds_shape : (Reader.shape : Recorder ArrayShape).Adds before fun shape =>
    before + .of (shape.sizes.length + shape.lowerBounds.length)
      [shape.sizes.length, shape.lowerBounds.length] := by
  refine (adds_lift _).bind fun rank => ?_
  split
  · exact adds_fail _
  · refine (adds_bounded _ _ _).bind fun sizes => (adds_bounded _ _ _).bind fun lowerBounds =>
      adds_pure ?_
    rw [add_assoc, ← Notes.of_add]
    rfl

/-! ## Methods -/

section

variable {inner : Recorder TypeSig} (h : inner.Adds 0 TypeSig.notes)

include h

namespace Adds

/-- The mark has nothing inside. -/
theorem markOrParam (before : Notes) (convention : Convention) :
    (Reader.markOrParam inner convention).Adds before fun found =>
      before + found.elim 0 TypeSig.notes := by
  refine (adds_lift _).bind fun offset => (adds_lift _).bind fun lead => ?_
  split
  · split
    · exact (adds_lift _).bind fun _ => adds_pure (add_zero before).symm
    · exact adds_fail _
  · exact (h.behind before).bind fun param => adds_pure rfl

/-- One parameter is noted as its type. -/
theorem param (convention : Convention) : (Reader.param inner convention).Adds 0 TypeSig.notes := by
  refine (adds_lift _).bind fun offset => (adds_lift _).bind fun lead => ?_
  split
  · exact adds_fail _
  · exact h

/-- Parameters are noted each in its turn, and the mark in one more. -/
theorem params (before : Notes) (convention : Convention) (count index : Nat) :
    (Reader.params inner convention count index).Adds before fun found =>
      before + ((found.1.map TypeSig.notes).sum +
        .of (found.1.length + if found.2.isSome then 1 else 0) []) := by
  induction count generalizing before index with
  | zero => exact adds_pure (add_zero before).symm
  | succ count ih =>
    refine (h.markOrParam _ convention).turn.bind fun found => ?_
    cases found with
    -- behind the mark as many parameters are still to come as in front of it
    | none =>
      refine ((h.param convention).items _ (count + 1)).bind fun params => adds_pure ?_
      show _ = before + (_ + .of (params.length + 1) [])
      rw [Notes.of_succ params.length, Option.elim_none]
      abel
    | some param =>
      refine (ih _ (index + 1)).bind fun found => adds_pure ?_
      show _ = before + (((param :: found.1).map TypeSig.notes).sum +
        .of ((param :: found.1).length + _) [])
      rw [List.length_cons, Nat.add_right_comm, Notes.of_succ (_ + _), List.map_cons,
        List.sum_cons, Option.elim_some]
      abel

/-- The parameters are noted as a list where they begin. -/
theorem resultAndParams (before : Notes) (convention : Convention) (count : Nat) :
    (Reader.resultAndParams inner convention count).Adds before fun found =>
      before + (((found.1 :: found.2.1).map TypeSig.notes).sum +
        .of (found.2.1.length + if found.2.2.isSome then 1 else 0) [found.2.1.length]) := by
  refine (h.behind before).bind fun result => ((h.params _ convention count 0).tally count).bind
    fun found => adds_pure ?_
  dsimp only
  rw [Notes.of_singleton (_ + _), List.map_cons, List.sum_cons]
  abel

/-- A method is noted as its types and its own loops and lists. -/
theorem method (before : Notes) : (Reader.method inner).Adds before fun method =>
    before + (((method.result :: method.params).map TypeSig.notes).sum +
      .of method.loops method.lists) := by
  refine (adds_lift _).bind fun header => (adds_lift _).bind fun count => ?_
  refine ((h.resultAndParams before header.convention count).tally count).bind fun found =>
    adds_pure ?_
  rw [MethodSig.loops, MethodSig.lists, Notes.of_pair]
  dsimp only
  abel

/-! ## Types -/

/-- A list that must not be empty is noted as any other. -/
theorem nonempty (before : Notes) (ifEmpty : Defect) :
    (Reader.nonempty inner ifEmpty).Adds before fun types =>
      before + ((types.map TypeSig.notes).sum + .of types.length [types.length]) := by
  refine (adds_lift _).bind fun count => ?_
  split
  · exact adds_fail _
  · exact h.list before count.value

/-- What an element type announces is noted as the types inside and the loops and lists of the rule
itself. -/
theorem body (before : Notes) (element : ElementType) :
    (Reader.body inner element).Adds before fun type =>
      before + ((type.children.map TypeSig.notes).sum + .of type.loops type.lists) := by
  have hleaf : ∀ {type : TypeSig}, type.children = [] → type.loops = 0 → type.lists = [] →
      before = before + ((type.children.map TypeSig.notes).sum + .of type.loops type.lists) := by
    intro type hchildren hloops hlists
    rw [hchildren, hloops, hlists]
    exact (add_zero before).symm
  have hnode : ∀ {child type : TypeSig}, type.children = [child] → type.loops = 0 →
      type.lists = [] → before + child.notes =
        before + ((type.children.map TypeSig.notes).sum + .of type.loops type.lists) := by
    intro child type hchildren hloops hlists
    rw [hchildren, hloops, hlists, List.map_singleton, List.sum_singleton]
    exact congrArg (before + ·) (add_zero child.notes).symm
  have hmodified : ∀ required, (Reader.modified inner required).Adds before fun type =>
      before + ((type.children.map TypeSig.notes).sum + .of type.loops type.lists) :=
    fun required => (adds_lift _).bind fun _ => (h.behind before).bind fun _ =>
      adds_pure (hnode rfl rfl rfl)
  cases element with
  | primitive => exact adds_pure (hleaf rfl rfl rfl)
  | valueType | classType => exact (adds_lift _).bind fun _ => adds_pure (hleaf rfl rfl rfl)
  | typeParameter | methodParameter =>
    exact (adds_lift _).bind fun _ => adds_pure (hleaf rfl rfl rfl)
  | pointer | byRef | vector | pinned =>
    exact (h.behind before).bind fun _ => adds_pure (hnode rfl rfl rfl)
  | array =>
    refine (h.behind before).bind fun child => adds_shape.bind fun shape => adds_pure ?_
    rw [add_assoc]
    simp only [TypeSig.children, TypeSig.loops, TypeSig.lists, List.map_singleton,
      List.sum_singleton]
  | instantiation =>
    exact (adds_lift _).bind fun _ => (adds_lift _).bind fun _ =>
      (h.nonempty before _).bind fun _ => adds_pure rfl
  | functionPointer => exact (h.method before).bind fun _ => adds_pure rfl
  | requiredModifier | optionalModifier => exact hmodified _

/-- A type is noted as the types inside and the loops and lists of its own rule. -/
theorem typeWith (before : Notes) : (Reader.typeWith inner).Adds before fun type =>
    before + ((type.children.map TypeSig.notes).sum + .of type.loops type.lists) := by
  refine (adds_lift _).bind fun offset => (adds_lift _).bind fun lead => ?_
  split
  · exact adds_fail _
  · exact h.body before _

/-! ## Signatures -/

/-- The parameters of a property are noted as a list where they begin. -/
theorem typeAndParams (before : Notes) (count : Nat) :
    (Reader.typeAndParams inner count).Adds before fun found =>
      before + (((found.1 :: found.2).map TypeSig.notes).sum +
        .of found.2.length [found.2.length]) := by
  refine (h.behind before).bind fun type => (h.list _ count).bind fun params => adds_pure ?_
  dsimp only
  rw [List.map_cons, List.sum_cons]
  abel

/-- A signature is noted as its types and its own loops and lists. -/
theorem signature (kind : SignatureKind) :
    (Reader.signature inner kind).Adds 0 Signature.notes := by
  cases kind with
  | method =>
    refine (h.method 0).bind fun method => adds_pure ?_
    rw [zero_add, Signature.notes, Signature.types_method]
    rfl
  | field =>
    refine (adds_lift _).bind fun _ => (h.behind 0).bind fun type => adds_pure ?_
    rw [zero_add, Signature.notes, Signature.types_field, List.map_singleton, List.sum_singleton]
    exact (add_zero type.notes).symm
  | property =>
    refine (adds_lift _).bind fun _ => (adds_lift _).bind fun count => ?_
    refine ((h.typeAndParams 0 count).tally count).bind fun found => adds_pure ?_
    rw [Signature.notes, Signature.types_property, Signature.loops, Signature.lists,
      Notes.of_pair]
    abel
  | locals =>
    refine (adds_lift _).bind fun _ => (h.nonempty 0 _).bind fun types => adds_pure ?_
    rw [zero_add, Signature.notes, Signature.types_locals]
    rfl
  | typeSpec =>
    refine (h.behind 0).bind fun type => adds_pure ?_
    rw [zero_add, Signature.notes, Signature.types_typeSpec, List.map_singleton, List.sum_singleton]
    exact (add_zero type.notes).symm
  | methodSpec =>
    refine (adds_lift _).bind fun _ => (h.nonempty 0 _).bind fun types => adds_pure ?_
    rw [zero_add, Signature.notes, Signature.types_methodSpec]
    rfl

end Adds

end

/-- A call of the reader of types is noted as the type with all types inside. -/
theorem adds_type (limit levels : Nat) : (type limit levels).Adds 0 TypeSig.notes := by
  induction levels with
  | zero =>
    intro start value stop hrun
    cases hrun
  | succ levels ih =>
    refine ((ih.typeWith _).turn).congr fun type => ?_
    rw [zero_add, ← TypeSig.notes_eq]

end Recorder

/-! ## Subjects -/

namespace Subject

/-- The turns of the loops of a subject and of all types in it, and of the calls that read these. -/
def turns : Subject → Nat
  | signature whole => (signature whole).nodes.length +
      ((signature whole).nodes.map TypeSig.loops).sum + whole.loops
  | type single => (type single).nodes.length + ((type single).nodes.map TypeSig.loops).sum

/-- The numbers of members of the lists of a subject and of all types in it. -/
def lists : Subject → List Nat
  | signature whole => (signature whole).nodes.flatMap TypeSig.lists ++ whole.lists
  | type single => (type single).nodes.flatMap TypeSig.lists

/-- Nothing is left out of the journal of a run that succeeds: there is a turn for each type at all
depths, for each member of a list and for each mark of a sentinel, and each list is there with the
number of its members, those of the parameters at both of their places. -/
theorem journal_complete {options : DecodeOptions} {kind : SubjectKind} {start stop : Cursor}
    {subject : Subject} (h : (decode options kind).run start = .ok subject stop) :
    ((Recorder.subject options kind).journal start).turns.length = subject.turns ∧
      (((Recorder.subject options kind).journal start).tallies.map Tally.length).Perm
        subject.lists := by
  have hadds : (Recorder.subject options kind).Adds 0 fun subject =>
      .of subject.turns subject.lists := by
    have htype := Recorder.adds_type options.limit options.limit
    cases kind with
    | type =>
      refine htype.bind fun single => Recorder.adds_pure ?_
      exact TypeSig.notesOf_eq single.nodes
    | signature kind =>
      refine (htype.signature kind).bind fun whole => (Recorder.adds_lift _).bind fun _ =>
        Recorder.adds_pure ?_
      rw [Signature.notes, ← TypeSig.notesOf_flatMap_nodes, TypeSig.notesOf_eq, ← Notes.of_add]
      rfl
  rw [← Recorder.decoder_subject] at h
  have hnotes := hadds start subject stop h
  rw [zero_add] at hnotes
  obtain ⟨hturns, hlists⟩ := Prod.mk.inj hnotes
  exact ⟨hturns, Multiset.coe_eq_coe.1 hlists⟩

end Subject

end SignatureBlob
