import SignatureBlob.Proofs.Atomicity
import SignatureBlob.Proofs.SignatureRecognition
import SignatureBlob.Subject

/-!
# Congruences of decoders

The readers of types and signatures are put together in a few ways only: one after the other, with a
look at the next byte, with a verdict on a byte or on a value that was read, and as a transaction.
A relation between decoders that all of these keep is a congruence. It relates each reader to the
same reader with related readers of the types inside. So what is to hold of all readers, or of two
runs of them, is proved for the few ways alone.

A verdict knows where its bytes stand only in order to put the blame there. This is what `Judged`
says, and why a congruence need not speak of places.

The readers do not need all of a congruence. They take back only what fails over its first byte, and
they blame an element type only for a byte that has been read and announces nothing. A relation that
asks where a decoder has stopped may hold of them for this reason alone, so their lemmas are stated
for relations that are `Compatible` with the readers.

Main definitions: `Decoder.Congruence` and `Decoder.Compatible`. Main statements:
`Decoder.Closed.congruence` (relations that hold whatever is put together),
`Decoder.Compatible.decodeWith` (types) and `Decoder.Compatible.subject` (all that a blob can be
asked for).
-/

namespace SignatureBlob

open Grammar Decoder CompressedInt

/-- The defects of a list that is empty where it must have a member. -/
def Defect.IsEmptyList (defect : Defect) : Prop :=
  defect ∈ [Defect.noTypeArguments, Defect.noLocals, Defect.noMethodArguments]

namespace Decoder

variable {α β : Type}

/-! ## Decoders that move -/

/-- A decoder that succeeds only if it goes over a byte at least. -/
def Moves (decoder : Decoder α) : Prop :=
  ∀ start value stop, decoder.run start = .ok value stop → start.position < stop.position

/-- What is derived by no empty bytes is read only from bytes. -/
theorem Recognizes.moves {decoder : Decoder α} {grammar : α → List UInt8 → Prop}
    (h : decoder.Recognizes grammar) (hmoves : ∀ value, ¬ grammar value []) : decoder.Moves := by
  intro start value stop hrun
  obtain ⟨bytes, hderives, -, hposition⟩ := (h _ _ _).1 hrun
  have hlength : bytes.length ≠ 0 := by
    intro hzero
    rw [List.length_eq_zero_iff.1 hzero] at hderives
    exact hmoves value hderives
  omega

/-- A failure never succeeds in place. -/
theorem moves_fail (error : Error) : (fail error : Decoder α).Moves := by
  intro start value stop hrun
  simp at hrun

/-- A sequence moves if its last part does. -/
theorem moves_bind {first : Decoder α} {next : α → Decoder β} (hfirst : first.Moves)
    (hnext : ∀ value, (next value).Moves) : (first >>= next).Moves := by
  intro start value stop hrun
  obtain ⟨middle, place, hmiddle, hvalue⟩ := run_bind_eq_ok_iff.1 hrun
  exact Nat.lt_trans (hfirst _ _ _ hmiddle) (hnext _ _ _ _ hvalue)

/-- A look does not move, so what comes behind it must. -/
theorem moves_look {next : Nat → UInt8 → Decoder α} (h : ∀ offset lead, (next offset lead).Moves) :
    (position >>= fun offset => peek >>= next offset).Moves := by
  intro start value stop hrun
  obtain ⟨place, ahead⟩ := start
  rw [run_bind_ok (run_position _)] at hrun
  cases ahead with
  | nil =>
    rw [run_bind_error (run_peek_nil _)] at hrun
    cases hrun
  | cons lead ahead =>
    rw [run_bind_ok (run_peek_cons _ _ _)] at hrun
    exact h _ _ _ _ _ hrun

/-- To skip a byte is to move. -/
theorem moves_skip : skip.Moves := by
  refine recognizes_skip.moves fun _ hnil => ?_
  obtain ⟨_, hcons⟩ := hnil
  cases hcons

/-- An unsigned integer takes a byte at least. -/
theorem moves_decodeUnsigned : decodeUnsigned.Moves :=
  recognizes_decodeUnsigned.moves fun _ h => h.ne_nil rfl

/-! ## Verdicts -/

/-- A relation between decoders of the same values. -/
def Relation : Type 1 := (α : Type) → Decoder α → Decoder α → Prop

/-- The errors that a verdict on some bytes may raise, as functions of the place where these begin.
The blame falls on the first byte `lead`, except that a number of members is blamed by its value
when it is zero. Bytes left over are no matter of such a verdict. -/
inductive Blames (lead : UInt8) (spelled : List UInt8 → Prop) : (Nat → Error) → Prop
  | encoding {defect : Defect} (inside : ∀ count, defect ≠ .trailing count) :
      Blames lead spelled fun offset => .invalidEncoding offset lead defect
  | elementType : Blames lead spelled fun offset => .unknownElementType offset lead
  | emptyList {defect : Defect} (empty : defect.IsEmptyList)
      (zero : ∀ bytes, spelled bytes → DerivesUnsigned .wideEnough 0 bytes) :
      Blames lead spelled fun offset => .invalidEncoding offset 0 defect

/-- What becomes of two decoders after the same bytes, as functions of the place where these begin:
related decoders go on without knowing it, or both refuse the bytes. -/
inductive Judged (related : Relation) (lead : UInt8) (spelled : List UInt8 → Prop) :
    (Nat → Decoder α) → (Nat → Decoder α) → Prop
  | accept {next next' : Decoder α} (h : related α next next') :
      Judged related lead spelled (fun _ => next) (fun _ => next')
  | refuse {error : Nat → Error} (blames : Blames lead spelled error) :
      Judged related lead spelled (fun offset => fail (error offset))
        (fun offset => fail (error offset))

/-- With the place fixed, a verdict leaves related decoders if an error that is raised is related to
itself. -/
theorem Judged.related_of_fail {related : Relation} {lead : UInt8} {spelled : List UInt8 → Prop}
    {next next' : Nat → Decoder α} (h : Judged related lead spelled next next')
    (hfail : ∀ error : Error, error.observed?.isSome → related α (fail error) (fail error))
    (offset : Nat) : related α (next offset) (next' offset) := by
  cases h with
  | accept h => exact h
  | refuse blames => exact hfail _ (by cases blames <;> rfl)

/-- A verdict that leaves decoders related in one way leaves them related in a weaker way. -/
theorem Judged.mono {related other : Relation} {lead : UInt8} {spelled : List UInt8 → Prop}
    {next next' : Nat → Decoder α} (h : Judged related lead spelled next next')
    (hle : ∀ decoder decoder', related α decoder decoder' → other α decoder decoder') :
    Judged other lead spelled next next' := by
  cases h with
  | accept h => exact .accept (hle _ _ h)
  | refuse blames => exact .refuse blames

/-- A verdict that does not fall on an element type. -/
inductive Ruled (related : Relation) (lead : UInt8) (spelled : List UInt8 → Prop) :
    (Nat → Decoder α) → (Nat → Decoder α) → Prop
  | accept {next next' : Decoder α} (h : related α next next') :
      Ruled related lead spelled (fun _ => next) (fun _ => next')
  | refuse {error : Nat → Error} (blames : Blames lead spelled error)
      (encoded : ∀ offset, (error offset).kind = .invalidEncoding) :
      Ruled related lead spelled (fun offset => fail (error offset))
        (fun offset => fail (error offset))

/-- A verdict that does not fall on an element type is a verdict. -/
theorem Ruled.judged {related : Relation} {lead : UInt8} {spelled : List UInt8 → Prop}
    {next next' : Nat → Decoder α} (h : Ruled related lead spelled next next') :
    Judged related lead spelled next next' := by
  cases h with
  | accept h => exact .accept h
  | refuse blames _ => exact .refuse blames

/-- As for verdicts of every sort. -/
theorem Ruled.mono {related other : Relation} {lead : UInt8} {spelled : List UInt8 → Prop}
    {next next' : Nat → Decoder α} (h : Ruled related lead spelled next next')
    (hle : ∀ decoder decoder', related α decoder decoder' → other α decoder decoder') :
    Ruled other lead spelled next next' := by
  cases h with
  | accept h => exact .accept (hle _ _ h)
  | refuse blames encoded => exact .refuse blames encoded

/-- The encoding may be refused for its first byte, but not for bytes left over. -/
theorem Ruled.encoding {related : Relation} {lead : UInt8} {spelled : List UInt8 → Prop}
    {defect : Defect} (inside : ∀ count, defect ≠ .trailing count) :
    Ruled related lead spelled (fun offset => (Decoder.refuse offset lead defect : Decoder α))
      (fun offset => Decoder.refuse offset lead defect) :=
  .refuse (.encoding inside) fun _ => rfl

/-! ## Congruences -/

/-- A relation that is kept by the ways in which readers are put together. -/
structure Congruence (related : Relation) : Prop where
  pure : ∀ {α : Type} (value : α), related α (pure value) (pure value)
  bind : ∀ {α β : Type} {first first' : Decoder α} {next next' : α → Decoder β},
    related α first first' → (∀ value, related β (next value) (next' value)) →
    related β (first >>= next) (first' >>= next')
  bytes : ∀ count, related (List UInt8) (bytes count) (bytes count)
  /-- The next byte is looked at, and is read by what goes on if anything is. -/
  look : ∀ {α : Type} {next next' : Nat → UInt8 → Decoder α},
    (∀ offset lead, (next offset lead).Moves) →
    (∀ lead, Judged related lead (fun bytes => bytes = [lead])
      (fun offset => next offset lead) (fun offset => next' offset lead)) →
    related α (position >>= fun offset => peek >>= next offset)
      (position >>= fun offset => peek >>= next' offset)
  byte : ∀ {α : Type} {next next' : Nat → UInt8 → Decoder α},
    (∀ lead, Judged related lead (fun bytes => bytes = [lead])
      (fun offset => next offset lead) (fun offset => next' offset lead)) →
    related α (position >>= fun offset => byte >>= next offset)
      (position >>= fun offset => byte >>= next' offset)
  /-- A verdict on a value that was read, which is the same value for both. -/
  located : ∀ {α β : Type} {decoder : Decoder α} {grammar : α → List UInt8 → Prop}
    {next next' : Located α → Decoder β}, decoder.Recognizes grammar → decoder.Moves →
    related α decoder decoder →
    (∀ lead value, Judged related lead (grammar value)
      (fun offset => next ⟨offset, lead, value⟩) (fun offset => next' ⟨offset, lead, value⟩)) →
    related β (decoder.located >>= next) (decoder.located >>= next')
  transaction : ∀ {α : Type} {decoder : Decoder α}, related α decoder decoder →
    related α decoder.transaction decoder.transaction

/-- A relation that is kept by sequences and transactions, whatever they are put together from, and
that relates each primitive read and each error of a verdict to itself. -/
structure Closed (related : Relation) : Prop where
  pure : ∀ {α : Type} (value : α), related α (pure value) (pure value)
  bind : ∀ {α β : Type} {first first' : Decoder α} {next next' : α → Decoder β},
    related α first first' → (∀ value, related β (next value) (next' value)) →
    related β (first >>= next) (first' >>= next')
  position : related Nat position position
  peek : related UInt8 peek peek
  byte : related UInt8 byte byte
  bytes : ∀ count, related (List UInt8) (bytes count) (bytes count)
  fail : ∀ {α : Type} {error : Error}, error.observed?.isSome →
    related α (fail error) (fail error)
  transaction : ∀ {α : Type} {decoder : Decoder α}, related α decoder decoder →
    related α decoder.transaction decoder.transaction

/-- If primitive reads and verdicts are related, so is all that is put together from them. -/
theorem Closed.congruence {related : Relation} (closed : Closed related) : Congruence related where
  pure := closed.pure
  bind := closed.bind
  bytes := closed.bytes
  look _ h := closed.bind closed.position fun offset => closed.bind closed.peek fun lead =>
    (h lead).related_of_fail (fun _ => closed.fail) offset
  byte h := closed.bind closed.position fun offset => closed.bind closed.byte fun lead =>
    (h lead).related_of_fail (fun _ => closed.fail) offset
  located := by
    intro α β decoder grammar next next' _ _ hdecoder h
    rw [located_bind_eq, located_bind_eq]
    exact closed.bind closed.position fun offset => closed.bind closed.peek fun lead =>
      closed.bind hdecoder fun value => (h lead value).related_of_fail (fun _ => closed.fail) offset
  transaction := closed.transaction

/-! ## What the readers need -/

/-- A decoder that has not moved where it fails, or blames the encoding of the first byte ahead. -/
def Prompt (decoder : Decoder α) : Prop :=
  ∀ start error stop, decoder.run start = .error error stop → stop = start ∨
    start.ahead ≠ [] ∧ ∃ observed defect, error = .invalidEncoding start.position observed defect

/-- A number and a verdict on it, behind which nothing is read. -/
theorem prompt_located_bind {decoder : Decoder α} {next : Located α → Decoder β}
    (hatomic : decoder.Atomic) (h : ∀ offset lead value,
      (∃ result, next ⟨offset, lead, value⟩ = pure result) ∨
      ∃ defect, next ⟨offset, lead, value⟩ = refuse offset lead defect) :
    (decoder.located >>= next).Prompt := by
  rintro ⟨place, ahead⟩ error stop hrun
  rw [located_bind_eq, run_bind_ok (run_position _)] at hrun
  cases ahead with
  | nil =>
    rw [run_bind_error (run_peek_nil place)] at hrun
    exact .inl (Outcome.error.inj hrun).2.symm
  | cons lead ahead =>
    rw [run_bind_ok (run_peek_cons place lead ahead)] at hrun
    rcases run_bind_eq_error_iff.1 hrun with hstop | ⟨value, middle, -, hstop⟩
    · exact .inl (hatomic _ error stop hstop)
    · rcases h place lead value with ⟨result, hpure⟩ | ⟨defect, hrefuse⟩
      · rw [hpure] at hstop
        cases hstop
      · rw [hrefuse] at hstop
        exact .inr ⟨List.cons_ne_nil _ _, lead, defect, (Outcome.error.inj hstop).1.symm⟩

/-- What the next byte announces at the start of a type. -/
def announced (next : ElementType → Decoder α) : Decoder α := do
  let offset ← position
  let lead ← byte
  match ElementType.ofByte? lead with
  | none => fail (.unknownElementType offset lead)
  | some element => next element

/-- A relation that is kept by the ways in which readers are put together, as far as readers are. -/
structure Compatible (related : Relation) : Prop where
  pure : ∀ {α : Type} (value : α), related α (pure value) (pure value)
  bind : ∀ {α β : Type} {first first' : Decoder α} {next next' : α → Decoder β},
    related α first first' → (∀ value, related β (next value) (next' value)) →
    related β (first >>= next) (first' >>= next')
  bytes : ∀ count, related (List UInt8) (bytes count) (bytes count)
  look : ∀ {α : Type} {next next' : Nat → UInt8 → Decoder α},
    (∀ offset lead, (next offset lead).Moves) →
    (∀ lead, Ruled related lead (fun bytes => bytes = [lead])
      (fun offset => next offset lead) (fun offset => next' offset lead)) →
    related α (position >>= fun offset => peek >>= next offset)
      (position >>= fun offset => peek >>= next' offset)
  byte : ∀ {α : Type} {next next' : Nat → UInt8 → Decoder α},
    (∀ lead, Ruled related lead (fun bytes => bytes = [lead])
      (fun offset => next offset lead) (fun offset => next' offset lead)) →
    related α (position >>= fun offset => byte >>= next offset)
      (position >>= fun offset => byte >>= next' offset)
  announced : ∀ {α : Type} {next next' : ElementType → Decoder α},
    (∀ element, related α (next element) (next' element)) →
    related α (announced next) (announced next')
  located : ∀ {α β : Type} {decoder : Decoder α} {grammar : α → List UInt8 → Prop}
    {next next' : Located α → Decoder β}, decoder.Recognizes grammar → decoder.Moves →
    related α decoder decoder →
    (∀ lead value, Ruled related lead (grammar value)
      (fun offset => next ⟨offset, lead, value⟩) (fun offset => next' ⟨offset, lead, value⟩)) →
    related β (decoder.located >>= next) (decoder.located >>= next')
  transaction : ∀ {α : Type} {decoder : Decoder α}, decoder.Prompt → related α decoder decoder →
    related α decoder.transaction decoder.transaction

/-- A congruence has all that the readers need. -/
theorem Congruence.compatible {related : Relation} (law : Congruence related) :
    Compatible related where
  pure := law.pure
  bind := law.bind
  bytes := law.bytes
  look hmoves h := law.look hmoves fun lead => (h lead).judged
  byte h := law.byte fun lead => (h lead).judged
  announced h := law.byte fun lead => by
    cases ElementType.ofByte? lead with
    | none => exact .refuse .elementType
    | some element => exact .accept (h element)
  located hrecognizes hmoves hdecoder h :=
    law.located hrecognizes hmoves hdecoder fun lead value => (h lead value).judged
  transaction _ h := law.transaction h

namespace Compatible

variable {related : Relation} (law : Compatible related)

include law

/-- A byte is skipped alike. -/
theorem skip : related Unit skip skip := by
  have hskip : Decoder.skip =
      position >>= fun _ => Decoder.byte >>= fun _ => Pure.pure () := rfl
  rw [hskip]
  exact law.byte fun _ => .accept (law.pure ())

/-- Lists are alike if their members are. -/
theorem list {item item' : Decoder α} (h : related α item item') (count : Nat) :
    related (List α) (item.list count) (item'.list count) := by
  induction count with
  | zero => exact law.pure []
  | succ count ih => exact law.bind h fun value => law.bind ih fun values => law.pure _

/-! ## Integers and tokens -/

/-- A payload is read alike. -/
theorem decodePayload : related (Form × Nat) decodePayload decodePayload := by
  refine law.look (fun offset lead => ?_) fun lead => ?_
  · cases hform : Form.ofLead? lead with
    | none => exact moves_fail _
    | some form =>
      refine (recognizes_map (recognizes_bytes form.size) _).moves ?_
      rintro _ ⟨_, ⟨hlength, rfl⟩, -⟩
      exact absurd hlength (Nat.ne_of_lt form.size_pos)
  · cases hform : Form.ofLead? lead with
    | none => exact .encoding nofun
    | some form => exact .accept (law.bind (law.bytes form.size) fun bytes => law.pure _)

/-- A payload that is not null is read alike. -/
theorem decodeForm : related (Form × Nat) decodeForm decodeForm := by
  refine law.look (fun offset lead => ?_) fun lead => ?_
  · by_cases hnull : lead = nullMarker
    · rw [if_pos hnull]
      exact moves_fail _
    · rw [if_neg hnull]
      refine recognizes_decodePayload.moves fun result hnil => ?_
      exact result.1.encode_ne_nil _ hnil.2.symm
  · by_cases hnull : lead = nullMarker
    · simp only [if_pos hnull]
      exact .encoding nofun
    · simp only [if_neg hnull]
      exact .accept law.decodePayload

/-- An unsigned integer is read alike. -/
theorem decodeUnsigned : related Nat decodeUnsigned decodeUnsigned := by
  rw [decodeUnsigned_eq_map]
  exact law.bind law.decodeForm fun result => law.pure result.2

/-- A signed integer is read alike. -/
theorem decodeSigned : related Int decodeSigned decodeSigned := by
  rw [decodeSigned_eq_map]
  exact law.bind law.decodeForm fun result => law.pure (result.1.signed result.2)

/-- A verdict on an unsigned integer. -/
theorem number {next next' : Located Nat → Decoder β}
    (h : ∀ lead value, Ruled related lead (DerivesUnsigned .wideEnough value)
      (fun offset => next ⟨offset, lead, value⟩) (fun offset => next' ⟨offset, lead, value⟩)) :
    related β (CompressedInt.decodeUnsigned.located >>= next)
      (CompressedInt.decodeUnsigned.located >>= next') :=
  law.located recognizes_decodeUnsigned moves_decodeUnsigned law.decodeUnsigned h

omit law in
/-- No number is refused as a coded token for bytes left over. -/
theorem ne_trailing_of_ofCode {code : Nat} {defect : Defect}
    (h : CodedToken.ofCode code = .error defect) (count : Nat) : defect ≠ .trailing count := by
  rintro rfl
  unfold CodedToken.ofCode at h
  split at h
  · cases h
  · split at h <;> cases h

/-- A coded token is read alike, and put back alike. -/
theorem decodeToken : related Token CodedToken.decode CodedToken.decode := by
  rw [CodedToken.decode_eq_transaction]
  refine law.transaction (prompt_located_bind atomic_decodeUnsigned fun offset lead code => ?_)
    (law.number fun lead code => ?_)
  · dsimp only
    cases CodedToken.ofCode code with
    | ok token => exact .inl ⟨token, rfl⟩
    | error defect => exact .inr ⟨defect, rfl⟩
  · dsimp only
    cases hcode : CodedToken.ofCode code with
    | ok token => exact .accept (law.pure token)
    | error defect => exact .encoding (ne_trailing_of_ofCode hcode)

/-! ## Array shapes -/

/-- A list that is held against the rank is read alike if its members are. -/
theorem decodeBounded {item : Decoder α} (h : related α item item) (rank : Nat)
    {defect : Nat → Nat → Defect}
    (hdefect : ∀ given rank count, defect given rank ≠ .trailing count) :
    related (List α) (ArrayShape.decodeBounded item rank defect)
      (ArrayShape.decodeBounded item rank defect) := by
  refine law.number fun lead count => ?_
  by_cases hrank : rank < count
  · simp only [if_pos hrank]
    exact .encoding (hdefect count rank)
  · simp only [if_neg hrank]
    exact .accept (law.list h count)

/-- The shape of an array is read alike. -/
theorem decodeShape : related ArrayShape ArrayShape.decode ArrayShape.decode := by
  refine law.number fun lead rank => ?_
  by_cases hrank : rank = 0 ∨ maxRank < rank
  · simp only [if_pos hrank]
    exact .encoding nofun
  · simp only [if_neg hrank]
    refine .accept (law.bind (law.decodeBounded law.decodeUnsigned _ nofun) fun sizes => ?_)
    exact law.bind (law.decodeBounded law.decodeSigned _ nofun) fun lowerBounds => law.pure _

/-! ## Methods -/

omit law in
/-- No header byte is refused for bytes left over. -/
theorem ne_trailing_of_ofByte {lead : UInt8} {defect : Defect}
    (h : MethodHeader.ofByte lead = .error defect) (count : Nat) : defect ≠ .trailing count := by
  rintro rfl
  unfold MethodHeader.ofByte at h
  split at h
  · cases h
  · dsimp only at h
    split at h
    · cases h
    · split at h <;> cases h

/-- The header of a method is read alike. -/
theorem decodeHeader : related MethodHeader MethodHeader.decode MethodHeader.decode := by
  refine law.byte fun lead => ?_
  cases hlead : MethodHeader.ofByte lead with
  | error defect => exact .encoding (ne_trailing_of_ofByte hlead)
  | ok header =>
    by_cases hgeneric : header.generic = true
    · simp only [if_pos hgeneric]
      exact .accept (law.bind law.decodeUnsigned fun arity => law.pure _)
    · simp only [if_neg hgeneric]
      exact .accept (law.pure header)

variable {convention : Convention} {index : Nat} {sentinel : Option Nat}

/-- What goes on behind the look ahead reads the byte that was looked at. -/
theorem decodeSentinel_bind {next next' : Option Nat → Decoder α}
    (hmoves : ∀ place, (next place).Moves) (h : ∀ place, related α (next place) (next' place)) :
    related α (MethodSig.decodeSentinel convention index sentinel >>= next)
      (MethodSig.decodeSentinel convention index sentinel >>= next') := by
  have hbehind : ∀ offset lead, (if lead = ElementType.sentinelByte then
      refuse offset lead (.unexpectedSentinel convention) else next (some index)).Moves := by
    intro offset lead
    split
    · exact moves_fail _
    · exact hmoves _
  rw [MethodSig.decodeSentinel_bind_eq, MethodSig.decodeSentinel_bind_eq]
  refine law.look (fun offset lead => ?_) fun lead => ?_
  · split
    · exact hmoves _
    · split
      · exact moves_fail _
      · exact moves_bind moves_skip fun _ => moves_look hbehind
  by_cases hmark : lead ≠ ElementType.sentinelByte
  · simp only [if_pos hmark]
    exact .accept (h _)
  simp only [if_neg hmark]
  by_cases hsecond : (sentinel.isSome || !convention.admitsVarArgs) = true
  · simp only [if_pos hsecond]
    exact .encoding nofun
  simp only [if_neg hsecond]
  refine .accept (law.bind law.skip fun _ => law.look hbehind fun lead => ?_)
  by_cases hmark : lead = ElementType.sentinelByte
  · simp only [if_pos hmark]
    exact .encoding nofun
  · simp only [if_neg hmark]
    exact .accept (h _)

variable {inner inner' : Decoder TypeSig} {grammar : TypeSig → List UInt8 → Prop}

/-- Parameters are read alike if types are, with the mark of the sentinel among them. -/
theorem decodeParams (hinner : inner.Recognizes grammar) (hunmarked : Grammar.Unmarked grammar)
    (h : related TypeSig inner inner') (count : Nat) :
    related _ (MethodSig.decodeParams inner convention count index sentinel)
      (MethodSig.decodeParams inner' convention count index sentinel) := by
  induction count generalizing index sentinel with
  | zero => exact law.pure _
  | succ count ih =>
    refine law.decodeSentinel_bind (fun place => ?_) fun place =>
      law.bind h fun param => law.bind ih fun found => law.pure (param :: found.1, found.2)
    refine (recognizes_bind hinner fun param => recognizes_map
      (MethodSig.recognizes_decodeParams hinner hunmarked count (index + 1) place)
      fun found => (param :: found.1, found.2)).moves ?_
    rintro _ ⟨param, front, back, hparam, -, happend⟩
    obtain ⟨rfl, -⟩ := List.append_eq_nil_iff.1 happend.symm
    obtain ⟨_, _, hnil, -⟩ := hunmarked _ _ hparam
    cases hnil

/-- A method is read alike if its types are. -/
theorem decodeMethod (hinner : inner.Recognizes grammar) (hunmarked : Grammar.Unmarked grammar)
    (h : related TypeSig inner inner') :
    related MethodSig (MethodSig.decodeWith inner) (MethodSig.decodeWith inner') := by
  rw [MethodSig.decodeWith_eq, MethodSig.decodeWith_eq]
  exact law.bind law.decodeHeader fun _ => law.bind law.decodeUnsigned fun count =>
    law.bind h fun _ => law.bind (law.decodeParams hinner hunmarked h count) fun _ => law.pure _

/-! ## Types -/

/-- The byte that announces a generic type is read alike. -/
theorem decodeBaseMarker : related Bool TypeSig.decodeBaseMarker TypeSig.decodeBaseMarker := by
  refine law.look (fun offset lead => ?_) fun lead => ?_
  · have hskip : ∀ answer : Bool, (Decoder.skip >>= fun _ => Pure.pure answer).Moves := by
      intro answer
      refine (recognizes_map recognizes_skip fun _ => answer).moves ?_
      rintro _ ⟨_, ⟨_, hnil⟩, -⟩
      cases hnil
    split
    · exact hskip false
    · split
      · exact hskip true
      · exact moves_fail _
  by_cases hclass : lead = ElementType.classType.byte
  · simp only [if_pos hclass]
    exact .accept (law.bind law.skip fun _ => law.pure false)
  simp only [if_neg hclass]
  by_cases hvalue : lead = ElementType.valueType.byte
  · simp only [if_pos hvalue]
    exact .accept (law.bind law.skip fun _ => law.pure true)
  · simp only [if_neg hvalue]
    exact .encoding nofun

/-- The blame for a list without members is put on its number, whatever form that has. -/
theorem decodeNonempty (h : related TypeSig inner inner') {defect : Defect}
    (hempty : defect.IsEmptyList) :
    related (List TypeSig) (TypeSig.decodeNonempty inner defect)
      (TypeSig.decodeNonempty inner' defect) := by
  refine law.number fun lead count => ?_
  by_cases hzero : count = 0
  · simp only [if_pos hzero]
    exact .refuse (.emptyList hempty fun _ hcount => hzero ▸ hcount) fun _ => rfl
  · simp only [if_neg hzero]
    exact .accept (law.list h count)

/-- A modified type is read alike if the type inside is. -/
theorem decodeModified (h : related TypeSig inner inner') (required : Bool) :
    related TypeSig (TypeSig.decodeModified inner required)
      (TypeSig.decodeModified inner' required) :=
  law.bind law.decodeToken fun _ => law.bind h fun _ => law.pure _

/-- What an element type announces. -/
theorem decodeBody (hinner : inner.Recognizes grammar) (hunmarked : Grammar.Unmarked grammar)
    (h : related TypeSig inner inner') (element : ElementType) :
    related TypeSig (TypeSig.decodeBody inner element) (TypeSig.decodeBody inner' element) := by
  cases element with
  | primitive kind => exact law.pure _
  | pointer | byRef | vector | pinned => exact law.bind h fun _ => law.pure _
  | valueType | classType => exact law.bind law.decodeToken fun _ => law.pure _
  | typeParameter | methodParameter => exact law.bind law.decodeUnsigned fun _ => law.pure _
  | array => exact law.bind h fun _ => law.bind law.decodeShape fun _ => law.pure _
  | instantiation =>
    refine law.bind law.decodeBaseMarker fun _ => law.bind law.decodeToken fun _ => ?_
    exact law.bind (law.decodeNonempty h List.mem_cons_self) fun _ => law.pure _
  | functionPointer => exact law.bind (law.decodeMethod hinner hunmarked h) fun _ => law.pure _
  | requiredModifier => exact law.decodeModified h true
  | optionalModifier => exact law.decodeModified h false

/-- One level of a type. -/
theorem decodeWith (hinner : inner.Recognizes grammar) (hunmarked : Grammar.Unmarked grammar)
    (h : related TypeSig inner inner') :
    related TypeSig (TypeSig.decodeWith inner) (TypeSig.decodeWith inner') :=
  law.announced fun element => law.decodeBody hinner hunmarked h element

/-- Types with more levels on the one side than on the other, if the guard is related to them. -/
theorem decodeWithin (limit limit' : Nat)
    (hguard : ∀ levels, related TypeSig (TypeSig.decodeWithin limit 0)
      (TypeSig.decodeWithin limit' levels)) {levels levels' : Nat} (hle : levels ≤ levels') :
    related TypeSig (TypeSig.decodeWithin limit levels) (TypeSig.decodeWithin limit' levels') := by
  induction levels generalizing levels' with
  | zero => exact hguard levels'
  | succ levels ih =>
    cases levels' with
    | zero => exact absurd hle (Nat.not_succ_le_zero levels)
    | succ levels' =>
      exact law.decodeWith (TypeSig.recognizes_decodeWithin limit levels)
        (TypeSig.unmarked_derives_within levels) (ih (Nat.le_of_succ_le_succ hle))

/-! ## Signatures -/

/-- The lead byte of a signature is read alike. -/
theorem decodeLead (kind : SignatureKind) :
    related UInt8 (Signature.decodeLead kind) (Signature.decodeLead kind) := by
  refine law.byte fun lead => ?_
  by_cases hlead : kind.leads.contains lead = true
  · simp only [if_pos hlead]
    exact .accept (law.pure lead)
  · simp only [if_neg hlead]
    exact .encoding nofun

/-- A signature is read alike if its types are. -/
theorem decodeSignature (hinner : inner.Recognizes grammar)
    (hunmarked : Grammar.Unmarked grammar) (h : related TypeSig inner inner')
    (kind : SignatureKind) :
    related Signature (Signature.decodeWith inner kind) (Signature.decodeWith inner' kind) := by
  cases kind with
  | method => exact law.bind (law.decodeMethod hinner hunmarked h) fun _ => law.pure _
  | field => exact law.bind (law.decodeLead _) fun _ => law.bind h fun _ => law.pure _
  | property =>
    rw [Signature.decodeWith_property, Signature.decodeWith_property]
    refine law.bind (law.decodeLead _) fun _ => law.bind law.decodeUnsigned fun count => ?_
    exact law.bind h fun _ => law.bind (law.list h count) fun _ => law.pure _
  | locals =>
    refine law.bind (law.decodeLead _) fun _ => ?_
    exact law.bind (law.decodeNonempty h (by simp [Defect.IsEmptyList])) fun _ => law.pure _
  | typeSpec => exact law.bind h fun _ => law.pure _
  | methodSpec =>
    refine law.bind (law.decodeLead _) fun _ => ?_
    exact law.bind (law.decodeNonempty h (by simp [Defect.IsEmptyList])) fun _ => law.pure _

/-- All that a blob can be asked for, under options of which the ones admit no more levels than the
others. -/
theorem subject {options options' : DecodeOptions}
    (hguard : ∀ levels, related TypeSig (TypeSig.decodeWithin options.limit 0)
      (TypeSig.decodeWithin options'.limit levels))
    (hfinish : related Unit (finish options) (finish options'))
    (hle : options.limit ≤ options'.limit) (kind : SubjectKind) :
    related Subject (Subject.decode options kind) (Subject.decode options' kind) := by
  have htype : related TypeSig (TypeSig.decode options) (TypeSig.decode options') :=
    law.decodeWithin _ _ hguard hle
  cases kind with
  | type => exact law.bind htype fun _ => law.pure _
  | signature kind =>
    refine law.bind ?_ fun _ => law.pure _
    refine law.bind (law.decodeSignature (TypeSig.recognizes_decodeWithin _ _)
      (TypeSig.unmarked_derives_within _) htype kind) fun _ => ?_
    exact law.bind hfinish fun _ => law.pure _

end Compatible

end Decoder

end SignatureBlob
