import SignatureBlob.Proofs.IntegerRecognition
import SignatureBlob.Proofs.Parameters
import SignatureBlob.Proofs.Respelling

/-!
# Recognition of types

If a decoder of the types inside recognizes a grammar, then the readers of array shapes, methods and
types recognize the rules of that grammar. No type begins with the sentinel mark, so a look ahead
for it never takes a parameter for a mark. The limit on nesting adds to the grammar that the type
has no more levels than are left.

Main statements: `TypeSig.recognizes_decodeWith` (one level) and `TypeSig.recognizes_decodeWithin`
(a type with a limit on its levels).
-/

namespace SignatureBlob

open Grammar Decoder CompressedInt

/-! ## Array shapes -/

namespace ArrayShape

variable {α : Type} {item : Decoder α} {grammar : α → List UInt8 → Prop}

/-- A list of numbers is read that is no longer than the rank. -/
theorem recognizes_decodeBounded (h : item.Recognizes grammar) (rank : Nat)
    (defect : Nat → Nat → Defect) :
    (decodeBounded item rank defect).Recognizes fun values bytes => ∃ front back,
      DerivesUnsigned .wideEnough values.length front ∧ values.length ≤ rank ∧
        Each grammar values back ∧ bytes = front ++ back := by
  refine (recognizes_located_bind recognizes_decodeUnsigned (fun _ h => h.ne_nil rfl)
    fun offset lead count => recognizes_ite (rank < count)
      (recognizes_refuse offset lead (defect count rank)) (recognizes_list h count)).congr ?_
  intro values bytes
  constructor
  · rintro ⟨_, front, back, hcount, ⟨hrank, rfl, heach⟩, rfl⟩
    exact ⟨front, back, hcount, Nat.le_of_not_lt hrank, heach, rfl⟩
  · rintro ⟨front, back, hcount, hrank, heach, rfl⟩
    exact ⟨_, front, back, hcount, ⟨Nat.not_lt_of_le hrank, rfl, heach⟩, rfl⟩

/-- The shape of an array is read by its rule. -/
theorem recognizes_decode : ArrayShape.decode.Recognizes (Derives .wideEnough) := by
  refine (recognizes_located_bind recognizes_decodeUnsigned (fun _ h => h.ne_nil rfl)
    fun offset lead rank => recognizes_ite (rank = 0 ∨ maxRank < rank)
      (recognizes_refuse offset lead (.arrayRank rank))
      (recognizes_bind (recognizes_decodeBounded recognizes_decodeUnsigned rank .sizesExceedRank)
        fun sizes => recognizes_map
          (recognizes_decodeBounded recognizes_decodeSigned rank .lowerBoundsExceedRank)
          fun lowerBounds => (⟨rank, sizes, lowerBounds⟩ : ArrayShape))).congr ?_
  rintro ⟨rank, sizes, lowerBounds⟩ bytes
  constructor
  · rintro ⟨_, first, _, hranked, ⟨hrank, _, _, _, hsizes, ⟨_, hbounds, hshape⟩, rfl⟩, rfl⟩
    obtain ⟨rfl, rfl, rfl⟩ := ArrayShape.mk.inj hshape
    obtain ⟨second, third, hsizeCount, hfewSizes, heachSize, rfl⟩ := hsizes
    obtain ⟨fourth, fifth, hboundCount, hfewBounds, heachBound, rfl⟩ := hbounds
    rw [not_or, Nat.not_lt] at hrank
    have positive : 0 < rank := Nat.pos_of_ne_zero hrank.1
    rw [List.append_assoc]
    exact .intro positive hrank.2 hfewSizes hfewBounds hranked hsizeCount heachSize hboundCount
      heachBound
  · rintro ⟨positive, bounded, fewSizes, fewBounds, ranked, sizeCount, eachSize, boundCount,
      eachBound⟩
    have hrank : ¬ (rank = 0 ∨ maxRank < rank) := by
      rw [not_or, Nat.not_lt]
      exact ⟨Nat.ne_of_gt positive, bounded⟩
    refine ⟨rank, _, _, ranked, ⟨hrank, sizes, _, _, ⟨_, _, sizeCount, fewSizes, eachSize, rfl⟩,
      ⟨_, ⟨_, _, boundCount, fewBounds, eachBound, rfl⟩, rfl⟩, rfl⟩, ?_⟩
    rw [List.append_assoc]

end ArrayShape

/-! ## Method headers -/

namespace MethodHeader

/-- The lead bytes that are understood are those that lead a header, and they say all of it but its
numbers. -/
theorem ofByte_eq_ok_iff {header : MethodHeader} {lead : UInt8} :
    ofByte lead = .ok header ↔ header.LedBy lead ∧ header.arity = 0 ∧ header.sentinel = none := by
  constructor
  · intro h
    unfold ofByte at h
    split at h
    · cases h
    · next convention hconvention =>
      dsimp only at h
      split at h
      · cases h
      · next hreserved =>
        split at h
        · cases h
        · next hexplicit =>
          cases h
          refine ⟨⟨(Convention.byte_of_ofByte? hconvention).symm, ?_, rfl, rfl, rfl, ?_⟩, rfl, rfl⟩
          · exact Bool.eq_false_iff.2 hreserved
          · simpa using hexplicit
  · obtain ⟨convention, hasThis, explicitThis, generic, arity, sentinel⟩ := header
    rintro ⟨⟨hconvention, hreserved, hgeneric, hhasThis, hexplicitThis, hinstance⟩, harity,
      hsentinel⟩
    dsimp only at hconvention hgeneric hhasThis hexplicitThis hinstance harity hsentinel
    subst hgeneric hhasThis hexplicitThis harity hsentinel
    have hexplicit : (HeaderBit.isSet HeaderBit.explicitThis lead
        && !HeaderBit.isSet HeaderBit.hasThis lead) = false := by
      rw [Bool.and_eq_false_imp]
      intro hset
      rw [hinstance hset]
      rfl
    simp only [ofByte, hconvention, Convention.ofByte?_byte, hreserved, hexplicit]
    rfl

/-- Behind the lead byte of a generic method stands the number of its parameters. -/
theorem recognizes_number (header : MethodHeader) :
    (if header.generic then do
      let arity ← decodeUnsigned
      return { header with arity }
    else return header : Decoder MethodHeader).Recognizes fun result bytes =>
      (header.generic = true ∧ ∃ arity, DerivesUnsigned .wideEnough arity bytes ∧
        result = { header with arity }) ∨
      (header.generic = false ∧ result = header ∧ bytes = []) := by
  by_cases hgeneric : header.generic = true
  · rw [if_pos hgeneric]
    refine (recognizes_map recognizes_decodeUnsigned fun arity => { header with arity }).congr ?_
    intro result bytes
    constructor
    · intro h
      exact .inl ⟨hgeneric, h⟩
    · rintro (⟨_, h⟩ | ⟨hfalse, _⟩)
      · exact h
      · exact absurd (hfalse.symm.trans hgeneric) Bool.false_ne_true
  · rw [if_neg hgeneric]
    refine (recognizes_pure header).congr ?_
    intro result bytes
    constructor
    · intro h
      exact .inr ⟨Bool.eq_false_iff.2 hgeneric, h⟩
    · rintro (⟨htrue, _⟩ | ⟨_, h⟩)
      · exact absurd htrue hgeneric
      · exact h

/-- The header of a method is read by its rule, without a place for the sentinel. -/
theorem recognizes_decode :
    MethodHeader.decode.Recognizes fun header bytes =>
      header.Derives .wideEnough bytes ∧ header.sentinel = none := by
  refine (recognizes_ask_bind fun offset => @recognizes_bind _ _ _ _ _
    (fun lead result bytes => ∃ header, ofByte lead = .ok header ∧
      ((header.generic = true ∧ ∃ arity, DerivesUnsigned .wideEnough arity bytes ∧
        result = { header with arity }) ∨
      (header.generic = false ∧ result = header ∧ bytes = [])))
    recognizes_byte fun lead => ?_).congr ?_
  · cases hlead : ofByte lead with
    | error defect =>
      simpa only [reduceCtorEq, false_and, exists_false] using recognizes_refuse offset lead defect
    | ok header => simpa only [Except.ok.injEq, exists_eq_left'] using recognizes_number header
  intro header bytes
  constructor
  · rintro ⟨lead, _, back, rfl, ⟨header', hlead, hnumber⟩, rfl⟩
    obtain ⟨hled, harity, hsentinel⟩ := ofByte_eq_ok_iff.1 hlead
    rcases hnumber with ⟨hgeneric, arity, hcount, rfl⟩ | ⟨hgeneric, rfl, rfl⟩
    · exact ⟨.generic (hled.with_numbers arity _) hgeneric hcount, hsentinel⟩
    · exact ⟨.plain hled hgeneric harity, hsentinel⟩
  · rintro ⟨hderives, hsentinel⟩
    cases hderives with
    | plain led flag none =>
      exact ⟨_, _, [], rfl, ⟨header, ofByte_eq_ok_iff.2 ⟨led, none, hsentinel⟩,
        .inr ⟨flag, rfl, rfl⟩⟩, rfl⟩
    | generic led flag counted =>
      exact ⟨_, _, _, rfl, ⟨{ header with arity := 0 },
        ofByte_eq_ok_iff.2 ⟨led.with_numbers 0 _, rfl, hsentinel⟩,
        .inl ⟨flag, header.arity, counted, rfl⟩⟩, rfl⟩

end MethodHeader

/-! ## Parameters -/

/-- Nothing that the grammar has is empty or begins with the sentinel mark. -/
def Grammar.Unmarked {α : Type} (grammar : α → List UInt8 → Prop) : Prop :=
  ∀ value bytes, grammar value bytes →
    ∃ lead rest, bytes = lead :: rest ∧ lead ≠ ElementType.sentinelByte

namespace MethodSig

variable {convention : Convention} {index : Nat} {sentinel : Option Nat}

/-- Another byte than the mark is left where it is. -/
theorem run_decodeSentinel_of_ne {place : Nat} {lead : UInt8} {ahead : List UInt8}
    (h : lead ≠ ElementType.sentinelByte) :
    (decodeSentinel convention index sentinel).run ⟨place, lead :: ahead⟩ =
      .ok sentinel ⟨place, lead :: ahead⟩ := by
  rw [decodeSentinel, run_bind_ok (run_position _), run_bind_ok (run_peek_cons place lead ahead),
    if_pos h, run_pure]

/-- Behind a mark that may stand the look is for another one, as where a mark has been seen. -/
theorem run_decodeSentinel_again {place : Nat} {ahead : List UInt8}
    (hadmits : convention.admitsVarArgs = true) :
    (decodeSentinel convention index none).run ⟨place, ElementType.sentinelByte :: ahead⟩ =
      (decodeSentinel convention index (some index)).run ⟨place + 1, ahead⟩ := by
  have hskip : skip.run ⟨place, ElementType.sentinelByte :: ahead⟩ =
      .ok () ⟨place + 1, ahead⟩ := rfl
  rw [decodeSentinel, run_bind_ok (run_position _), run_bind_ok (run_peek_cons _ _ _),
    if_neg (not_not_intro rfl), if_neg (by rw [hadmits]; exact Bool.false_ne_true),
    run_bind_ok hskip]
  simp only [decodeSentinel, ite_not, Option.isSome_some, Bool.true_or, if_true]

/-- A mark is read where the convention has it, none has been seen and no other follows it. -/
theorem run_decodeSentinel_mark {place : Nat} {lead : UInt8} {ahead : List UInt8}
    (h : lead ≠ ElementType.sentinelByte) (hadmits : convention.admitsVarArgs = true) :
    (decodeSentinel convention index none).run ⟨place, ElementType.sentinelByte :: lead :: ahead⟩ =
      .ok (some index) ⟨place + 1, lead :: ahead⟩ :=
  (run_decodeSentinel_again hadmits).trans (run_decodeSentinel_of_ne h)

/-- A look ahead that succeeds ends in one of these two ways. -/
theorem exists_of_run_decodeSentinel {result : Option Nat} {start stop : Cursor}
    (h : (decodeSentinel convention index sentinel).run start = .ok result stop) :
    (result = sentinel ∧ stop = start) ∨
      (sentinel = none ∧ convention.admitsVarArgs = true ∧ result = some index ∧
        start.Passes [ElementType.sentinelByte] stop) := by
  obtain ⟨place, ahead⟩ := start
  rw [decodeSentinel, run_bind_ok (run_position _)] at h
  obtain - | ⟨lead, ahead⟩ := ahead
  · rw [run_bind_error (run_peek_nil place)] at h
    cases h
  rw [run_bind_ok (run_peek_cons place lead ahead)] at h
  split at h
  · rw [run_pure, Outcome.ok.injEq] at h
    exact .inl ⟨h.1.symm, h.2.symm⟩
  next hmark =>
    have hskip : skip.run ⟨place, lead :: ahead⟩ = .ok () ⟨place + 1, ahead⟩ := rfl
    obtain rfl : lead = ElementType.sentinelByte := Decidable.not_not.1 hmark
    split at h
    · cases h
    next hadmitted =>
      rw [run_bind_ok hskip, run_bind_ok (run_position _)] at h
      obtain - | ⟨lead, ahead⟩ := ahead
      · rw [run_bind_error (run_peek_nil _)] at h
        cases h
      rw [run_bind_ok (run_peek_cons _ lead ahead)] at h
      split at h
      · cases h
      · rw [run_pure, Outcome.ok.injEq] at h
        obtain ⟨rfl, rfl⟩ := h
        rw [Bool.not_eq_true, Bool.or_eq_false_iff] at hadmitted
        refine .inr ⟨by simpa using hadmitted.1, by simpa using hadmitted.2, rfl, ?_⟩
        exact Cursor.passes_cons_iff.2 ⟨_, rfl, Cursor.passes_nil_iff.2 rfl⟩

/-- What is read behind the look ahead stands behind a mark or behind none. -/
theorem recognizes_decodeSentinel_bind {α : Type} {next : Option Nat → Decoder α}
    {rest : Option Nat → α → List UInt8 → Prop}
    (hnext : ∀ place, (next place).Recognizes (rest place))
    (hunmarked : ∀ place, Grammar.Unmarked (rest place)) :
    (decodeSentinel convention index sentinel >>= next).Recognizes fun value bytes =>
      rest sentinel value bytes ∨
      (sentinel = none ∧ convention.admitsVarArgs = true ∧ ∃ back,
        rest (some index) value back ∧ bytes = ElementType.sentinelByte :: back) := by
  intro start value stop
  rw [run_bind_eq_ok_iff]
  constructor
  · rintro ⟨place, middle, hlook, hrun⟩
    obtain ⟨back, hrest, hpasses⟩ := (hnext _ _ _ _).1 hrun
    rcases exists_of_run_decodeSentinel hlook with ⟨rfl, rfl⟩ | ⟨hnone, hadmits, rfl, hmark⟩
    · exact ⟨back, .inl hrest, hpasses⟩
    · exact ⟨_ :: back, .inr ⟨hnone, hadmits, back, hrest, rfl⟩,
        Cursor.passes_append_iff.2 ⟨middle, hmark, hpasses⟩⟩
  · obtain ⟨position, ahead⟩ := start
    rintro ⟨bytes, hrest | ⟨rfl, hadmits, back, hrest, rfl⟩, hpasses⟩
    · obtain ⟨lead, tail, rfl, hlead⟩ := hunmarked _ _ _ hrest
      obtain ⟨ahead, rfl, _⟩ := Cursor.passes_cons_iff.1 hpasses
      exact ⟨_, _, run_decodeSentinel_of_ne hlead, (hnext _ _ _ _).2 ⟨_, hrest, hpasses⟩⟩
    · obtain ⟨lead, tail, rfl, hlead⟩ := hunmarked _ _ _ hrest
      obtain ⟨_, rfl, hback⟩ := Cursor.passes_cons_iff.1 hpasses
      obtain ⟨ahead, rfl, _⟩ := Cursor.passes_cons_iff.1 hback
      exact ⟨_, _, run_decodeSentinel_mark hlead hadmits, (hnext _ _ _ _).2 ⟨_, hrest, hback⟩⟩

variable {inner : Decoder TypeSig} {grammar : TypeSig → List UInt8 → Prop}

/-- The parameters from `index` on, behind the mark if `seen` is its place. -/
def DerivesFrom (grammar : TypeSig → List UInt8 → Prop) (convention : Convention) (index : Nat)
    (seen : Option Nat) (params : List TypeSig) (sentinel : Option Nat)
    (bytes : List UInt8) : Prop :=
  match seen with
  | some _ => sentinel = seen ∧ Each grammar params bytes
  | none => ∃ place, DerivesParams grammar place params bytes ∧
      (place.isSome = true → convention.admitsVarArgs = true) ∧ sentinel = place.map (index + ·)

/-- No parameters have no bytes and leave the place of the mark as it was. -/
theorem derivesFrom_nil_iff {seen : Option Nat} {bytes : List UInt8} :
    DerivesFrom grammar convention index seen [] sentinel bytes ↔ sentinel = seen ∧ bytes = [] := by
  cases seen with
  | some place =>
    refine and_congr_right fun _ => ⟨?_, ?_⟩
    · rintro ⟨⟩
      rfl
    · rintro rfl
      exact .nil
  | none =>
    simp only [DerivesFrom, derivesParams_nil_iff]
    constructor
    · rintro ⟨_, ⟨rfl, rfl⟩, _, rfl⟩
      exact ⟨rfl, rfl⟩
    · rintro ⟨rfl, rfl⟩
      exact ⟨none, ⟨rfl, rfl⟩, by simp, rfl⟩

/-- The first of some parameters has a mark in front of it, or none. -/
theorem derivesFrom_cons_iff {seen : Option Nat} {param : TypeSig} {params : List TypeSig}
    {bytes : List UInt8} :
    DerivesFrom grammar convention index seen (param :: params) sentinel bytes ↔
      (∃ front back, grammar param front ∧
        DerivesFrom grammar convention (index + 1) seen params sentinel back ∧
        bytes = front ++ back) ∨
      (seen = none ∧ convention.admitsVarArgs = true ∧ ∃ front back, grammar param front ∧
        DerivesFrom grammar convention (index + 1) (some index) params sentinel back ∧
        bytes = ElementType.sentinelByte :: (front ++ back)) := by
  cases seen with
  | some place =>
    constructor
    · rintro ⟨hsentinel, heach⟩
      obtain - | ⟨head, tail⟩ := heach
      exact .inl ⟨_, _, head, ⟨hsentinel, tail⟩, rfl⟩
    · rintro (⟨front, back, head, ⟨hsentinel, tail⟩, rfl⟩ | ⟨hseen, _⟩)
      · exact ⟨hsentinel, .cons head tail⟩
      · cases hseen
  | none =>
    simp only [DerivesFrom, derivesParams_cons_iff, true_and]
    have hshift : ∀ place : Option Nat,
        (place.map (· + 1)).map (index + ·) = place.map (index + 1 + ·) := by
      intro place
      rw [Option.map_map]
      exact congrArg (place.map ·) (funext fun n => by simp only [Function.comp]; omega)
    constructor
    · rintro ⟨_, ⟨place, front, back, hparam, hparams, rfl, rfl⟩ |
        ⟨front, back, hparam, heach, rfl, rfl⟩, hadmits, rfl⟩
      · exact .inl ⟨front, back, hparam,
          ⟨place, hparams, by simpa using hadmits, hshift place⟩, rfl⟩
      · exact .inr ⟨hadmits rfl, front, back, hparam, ⟨rfl, heach⟩, rfl⟩
    · rintro (⟨front, back, hparam, ⟨place, hparams, hadmits, rfl⟩, rfl⟩ |
        ⟨hadmits, front, back, hparam, ⟨rfl, heach⟩, rfl⟩)
      · exact ⟨_, .inl ⟨place, front, back, hparam, hparams, rfl, rfl⟩, by simpa using hadmits,
          (hshift place).symm⟩
      · exact ⟨_, .inr ⟨front, back, hparam, heach, rfl, rfl⟩, fun _ => hadmits, rfl⟩

/-- The parameters from an index on are read by their rule. -/
theorem recognizes_decodeParams (h : inner.Recognizes grammar)
    (hunmarked : Grammar.Unmarked grammar) (count index : Nat) (seen : Option Nat) :
    (decodeParams inner convention count index seen).Recognizes fun result bytes =>
      result.1.length = count ∧
        DerivesFrom grammar convention index seen result.1 result.2 bytes := by
  induction count generalizing index seen with
  | zero =>
    refine (recognizes_pure ([], seen)).congr ?_
    rintro ⟨params, sentinel⟩ bytes
    constructor
    · rintro ⟨hresult, rfl⟩
      obtain ⟨rfl, rfl⟩ := Prod.mk.inj hresult
      exact ⟨rfl, derivesFrom_nil_iff.2 ⟨rfl, rfl⟩⟩
    · rintro ⟨hlength, hderives⟩
      obtain rfl := List.length_eq_zero_iff.1 hlength
      obtain ⟨rfl, rfl⟩ := derivesFrom_nil_iff.1 hderives
      exact ⟨rfl, rfl⟩
  | succ count ih =>
    refine (recognizes_decodeSentinel_bind (fun place => recognizes_bind h fun param =>
      recognizes_map (ih (index + 1) place)
        fun result => (param :: result.1, result.2)) ?_).congr ?_
    -- a parameter never begins with the mark, so that the look tells where one stands
    · rintro place value _ ⟨param, front, back, hparam, _, rfl⟩
      obtain ⟨lead, tail, rfl, hlead⟩ := hunmarked _ _ hparam
      exact ⟨lead, tail ++ back, rfl, hlead⟩
    rintro ⟨params, sentinel⟩ bytes
    constructor
    · rintro (⟨param, front, back, hparam, ⟨⟨rest, _⟩, ⟨rfl, hrest⟩, hresult⟩, rfl⟩ |
        ⟨rfl, hadmits, _,
          ⟨param, front, back, hparam, ⟨⟨rest, _⟩, ⟨rfl, hrest⟩, hresult⟩, rfl⟩, rfl⟩)
      · obtain ⟨rfl, rfl⟩ := Prod.mk.inj hresult
        exact ⟨rfl, derivesFrom_cons_iff.2 (.inl ⟨front, back, hparam, hrest, rfl⟩)⟩
      · obtain ⟨rfl, rfl⟩ := Prod.mk.inj hresult
        exact ⟨rfl, derivesFrom_cons_iff.2 (.inr ⟨rfl, hadmits, front, back, hparam, hrest, rfl⟩)⟩
    · rintro ⟨hlength, hderives⟩
      cases params with
      | nil => cases hlength
      | cons param params =>
        obtain rfl : params.length = count := Nat.succ.inj hlength
        rcases derivesFrom_cons_iff.1 hderives with ⟨front, back, hparam, hrest, rfl⟩ |
          ⟨rfl, hadmits, front, back, hparam, hrest, rfl⟩
        · exact .inl ⟨param, front, back, hparam, ⟨(params, sentinel), ⟨rfl, hrest⟩, rfl⟩, rfl⟩
        · exact .inr ⟨rfl, hadmits, _, ⟨param, front, back, hparam,
            ⟨(params, sentinel), ⟨rfl, hrest⟩, rfl⟩, rfl⟩, rfl⟩

/-! ## Methods -/

/-- A method is read by its rule if its types are read by theirs. -/
theorem recognizes_decodeWith (h : inner.Recognizes grammar)
    (hunmarked : Grammar.Unmarked grammar) :
    (decodeWith inner).Recognizes (DerivesWith .wideEnough grammar) := by
  rw [decodeWith_eq]
  refine (recognizes_bind MethodHeader.recognizes_decode fun header =>
    recognizes_bind recognizes_decodeUnsigned fun count => recognizes_bind h fun result =>
      recognizes_map (recognizes_decodeParams h hunmarked count 0 none) fun found =>
        (⟨{ header with sentinel := found.2 }, result, found.1⟩ : MethodSig)).congr ?_
  rintro ⟨header, result, params⟩ bytes
  constructor
  · rintro ⟨header', first, _, ⟨hheader, _⟩, ⟨count, second, _, hcount, ⟨_, third, fourth, hresult,
      ⟨⟨_, _⟩, ⟨rfl, hparams⟩, hmethod⟩, rfl⟩, rfl⟩, rfl⟩
    obtain ⟨rfl, rfl, rfl⟩ := MethodSig.mk.inj hmethod
    obtain ⟨place, hparams, hadmits, rfl⟩ := hparams
    have hplace : place.map (0 + ·) = place := by simp
    rw [hplace]
    exact .intro (hheader.with_sentinel place) hcount hresult hparams hadmits
  · rintro ⟨headed, counted, returned, listed, admitted⟩
    have hfrom : DerivesFrom grammar header.convention 0 none params header.sentinel _ :=
      ⟨header.sentinel, listed, admitted, by simp⟩
    refine ⟨{ header with sentinel := none }, _, _, ⟨headed.with_sentinel none, rfl⟩,
      ⟨_, _, _, counted, ⟨result, _, _, returned, ⟨(params, header.sentinel), ⟨rfl, hfrom⟩, rfl⟩,
        rfl⟩, rfl⟩, rfl⟩

end MethodSig

/-! ## Types -/

namespace TypeSig

variable {inner : Decoder TypeSig} {grammar : TypeSig → List UInt8 → Prop}

/-- No element type has the sentinel mark for its byte. -/
theorem byte_ne_sentinelByte (element : ElementType) :
    element.byte ≠ ElementType.sentinelByte := by
  intro hmark
  have hnone := ElementType.ofByte?_sentinelByte
  rw [← hmark, ElementType.ofByte?_byte] at hnone
  cases hnone

/-- No type begins with the sentinel mark. -/
theorem unmarked_derivesWith (latitude : Latitude) (grammar : TypeSig → List UInt8 → Prop) :
    Grammar.Unmarked (DerivesWith latitude grammar) := by
  rintro type _ ⟨announced⟩
  exact ⟨_, _, rfl, byte_ne_sentinelByte _⟩

/-- One of two bytes is read in front of the token of a generic type. -/
theorem recognizes_decodeBaseMarker :
    decodeBaseMarker.Recognizes fun isValueType bytes =>
      bytes = [(if isValueType then ElementType.valueType else ElementType.classType).byte] := by
  have hskip : ∀ answer : Bool, (skip >>= fun _ => pure answer).Recognizes fun isValueType bytes =>
      isValueType = answer ∧ ∃ lead, bytes = [lead] := by
    intro answer
    refine (recognizes_map recognizes_skip fun _ => answer).congr ?_
    intro isValueType bytes
    constructor
    · rintro ⟨_, hbytes, rfl⟩
      exact ⟨rfl, hbytes⟩
    · rintro ⟨rfl, hbytes⟩
      exact ⟨(), hbytes, rfl⟩
  have hnext : ∀ offset lead, (if lead = ElementType.classType.byte then do
        skip
        return false
      else if lead = ElementType.valueType.byte then do
        skip
        return true
      else refuse offset lead .instantiationMarker : Decoder Bool).Recognizes
      fun isValueType bytes => (∃ byte, bytes = [byte]) ∧
        lead = (if isValueType then ElementType.valueType else ElementType.classType).byte := by
    intro offset lead
    by_cases hclass : lead = ElementType.classType.byte
    · rw [if_pos hclass]
      refine (hskip false).congr ?_
      rintro (_ | _) bytes
      · simp [hclass]
      · simp [hclass, ElementType.byte]
    · rw [if_neg hclass]
      by_cases hvalue : lead = ElementType.valueType.byte
      · rw [if_pos hvalue]
        refine (hskip true).congr ?_
        rintro (_ | _) bytes
        · simp [hvalue, ElementType.byte]
        · simp [hvalue]
      · rw [if_neg hvalue]
        refine (recognizes_refuse offset lead .instantiationMarker).congr ?_
        rintro (_ | _) bytes
        · simp [hclass]
        · simp [hvalue]
  refine (recognizes_ask_bind fun offset => recognizes_peek_bind (hnext offset) ?_).congr ?_
  · rintro lead isValueType ⟨⟨_, hnil⟩, _⟩
    cases hnil
  intro isValueType bytes
  constructor
  · rintro ⟨lead, back, ⟨⟨_, rfl⟩, rfl⟩, hcons⟩
    rw [(List.cons.inj hcons).1]
  · rintro rfl
    exact ⟨_, [], ⟨⟨_, rfl⟩, rfl⟩, rfl⟩

/-- A list of types with their number is read if it is not empty. -/
theorem recognizes_decodeNonempty (h : inner.Recognizes grammar) (defect : Defect) :
    (decodeNonempty inner defect).Recognizes fun types bytes => ∃ front back,
      types ≠ [] ∧ DerivesUnsigned .wideEnough types.length front ∧ Each grammar types back ∧
        bytes = front ++ back := by
  refine (recognizes_located_bind recognizes_decodeUnsigned (fun _ h => h.ne_nil rfl)
    fun offset lead count => recognizes_ite (count = 0) (recognizes_refuse offset 0 defect)
      (recognizes_list h count)).congr ?_
  intro types bytes
  constructor
  · rintro ⟨_, front, back, hcount, ⟨hpositive, rfl, heach⟩, rfl⟩
    exact ⟨front, back, fun hnil => hpositive (by rw [hnil]; rfl), hcount, heach, rfl⟩
  · rintro ⟨front, back, hnonempty, hcount, heach, rfl⟩
    exact ⟨_, front, back, hcount,
      ⟨fun hzero => hnonempty (List.length_eq_zero_iff.1 hzero), rfl, heach⟩, rfl⟩

/-- A generic type with its arguments is read by its rule. -/
theorem recognizes_decodeInstantiation (h : inner.Recognizes grammar) :
    (decodeInstantiation inner).Recognizes (Announces .wideEnough grammar .instantiation) := by
  refine (recognizes_bind recognizes_decodeBaseMarker fun isValueType =>
    recognizes_bind CodedToken.recognizes_decode fun base =>
      recognizes_map (recognizes_decodeNonempty h .noTypeArguments) fun args =>
        instantiation base isValueType args).congr ?_
  intro type bytes
  constructor
  · rintro ⟨isValueType, _, _, rfl, ⟨base, first, _, hbase,
      ⟨args, ⟨second, third, hnonempty, hcount, heach, rfl⟩, rfl⟩, rfl⟩, rfl⟩
    rw [List.singleton_append]
    exact .instantiation hbase hnonempty hcount heach
  · intro h
    cases h with
    | instantiation coded nonempty counted each =>
      exact ⟨_, _, _, rfl,
        ⟨_, _, _, coded, ⟨_, ⟨_, _, nonempty, counted, each, rfl⟩, rfl⟩, rfl⟩, rfl⟩

/-- A modified type is read by its rule, whether the modifier is required or not. -/
theorem recognizes_decodeModified (h : inner.Recognizes grammar) (required : Bool) :
    (decodeModified inner required).Recognizes (Announces .wideEnough grammar
      (if required then .requiredModifier else .optionalModifier)) := by
  refine (recognizes_bind CodedToken.recognizes_decode fun modifier =>
    recognizes_map h fun type => modified modifier required type).congr ?_
  intro type bytes
  constructor
  · rintro ⟨modifier, front, back, hmodifier, ⟨inner, hinner, rfl⟩, rfl⟩
    cases required with
    | true => exact .requiredModifier hmodifier hinner
    | false => exact .optionalModifier hmodifier hinner
  · intro h
    cases required with
    | true =>
      cases h with
      | requiredModifier coded nested => exact ⟨_, _, _, coded, ⟨_, nested, rfl⟩, rfl⟩
    | false =>
      cases h with
      | optionalModifier coded nested => exact ⟨_, _, _, coded, ⟨_, nested, rfl⟩, rfl⟩

/-- What an element type announces is read by its rule. -/
theorem recognizes_decodeBody (h : inner.Recognizes grammar) (hunmarked : Grammar.Unmarked grammar)
    (element : ElementType) :
    (decodeBody inner element).Recognizes (Announces .wideEnough grammar element) := by
  cases element with
  | primitive kind =>
    refine (recognizes_pure (primitive kind)).congr fun type bytes => ⟨?_, ?_⟩
    · rintro ⟨rfl, rfl⟩
      exact .primitive kind
    · intro h
      cases h
      exact ⟨rfl, rfl⟩
  | pointer =>
    refine (recognizes_map h pointer).congr fun type bytes => ⟨?_, ?_⟩
    · rintro ⟨target, htarget, rfl⟩
      exact .pointer htarget
    · intro h
      cases h with
      | pointer nested => exact ⟨_, nested, rfl⟩
  | byRef =>
    refine (recognizes_map h byRef).congr fun type bytes => ⟨?_, ?_⟩
    · rintro ⟨target, htarget, rfl⟩
      exact .byRef htarget
    · intro h
      cases h with
      | byRef nested => exact ⟨_, nested, rfl⟩
  | valueType =>
    refine (recognizes_map CodedToken.recognizes_decode valueType).congr fun type bytes => ⟨?_, ?_⟩
    · rintro ⟨token, htoken, rfl⟩
      exact .valueType htoken
    · intro h
      cases h with
      | valueType coded => exact ⟨_, coded, rfl⟩
  | classType =>
    refine (recognizes_map CodedToken.recognizes_decode classType).congr fun type bytes => ⟨?_, ?_⟩
    · rintro ⟨token, htoken, rfl⟩
      exact .classType htoken
    · intro h
      cases h with
      | classType coded => exact ⟨_, coded, rfl⟩
  | typeParameter =>
    refine (recognizes_map recognizes_decodeUnsigned fun index => genericParam index false).congr
      fun type bytes => ⟨?_, ?_⟩
    · rintro ⟨index, hindex, rfl⟩
      exact .typeParameter hindex
    · intro h
      cases h with
      | typeParameter counted => exact ⟨_, counted, rfl⟩
  | array =>
    refine (recognizes_bind h fun element =>
      recognizes_map ArrayShape.recognizes_decode fun shape => array element shape).congr
      fun type bytes => ⟨?_, ?_⟩
    · rintro ⟨element, front, back, helement, ⟨shape, hshape, rfl⟩, rfl⟩
      exact .array helement hshape
    · intro h
      cases h with
      | array nested shaped => exact ⟨_, _, _, nested, ⟨_, shaped, rfl⟩, rfl⟩
  | instantiation => exact recognizes_decodeInstantiation h
  | functionPointer =>
    refine (recognizes_map (MethodSig.recognizes_decodeWith h hunmarked) MethodSig.pointer).congr
      fun type bytes => ⟨?_, ?_⟩
    · rintro ⟨⟨header, result, params⟩, hmethod, rfl⟩
      exact .functionPointer hmethod
    · intro h
      cases h with
      | functionPointer method => exact ⟨_, method, rfl⟩
  | vector =>
    refine (recognizes_map h vector).congr fun type bytes => ⟨?_, ?_⟩
    · rintro ⟨element, helement, rfl⟩
      exact .vector helement
    · intro h
      cases h with
      | vector nested => exact ⟨_, nested, rfl⟩
  | methodParameter =>
    refine (recognizes_map recognizes_decodeUnsigned fun index => genericParam index true).congr
      fun type bytes => ⟨?_, ?_⟩
    · rintro ⟨index, hindex, rfl⟩
      exact .methodParameter hindex
    · intro h
      cases h with
      | methodParameter counted => exact ⟨_, counted, rfl⟩
  | requiredModifier => exact recognizes_decodeModified h true
  | optionalModifier => exact recognizes_decodeModified h false
  | pinned =>
    refine (recognizes_map h pinned).congr fun type bytes => ⟨?_, ?_⟩
    · rintro ⟨inner, hinner, rfl⟩
      exact .pinned hinner
    · intro h
      cases h with
      | pinned nested => exact ⟨_, nested, rfl⟩

/-- A type is read by its rule if the types inside are read by theirs. -/
theorem recognizes_decodeWith (h : inner.Recognizes grammar)
    (hunmarked : Grammar.Unmarked grammar) :
    (decodeWith inner).Recognizes (DerivesWith .wideEnough grammar) := by
  refine (recognizes_ask_bind fun offset => @recognizes_bind _ _ _ _ _
    (fun lead type bytes => ∃ element, ElementType.ofByte? lead = some element ∧
      Announces .wideEnough grammar element type bytes)
    recognizes_byte fun lead => ?_).congr ?_
  · cases hlead : ElementType.ofByte? lead with
    | none =>
      simpa only [Reader.lift_decoder, reduceCtorEq, false_and, exists_false] using
        recognizes_fail (.unknownElementType offset lead)
    | some element =>
      simpa only [Option.some.injEq, exists_eq_left'] using
        recognizes_decodeBody h hunmarked element
  intro type bytes
  constructor
  · rintro ⟨lead, _, back, rfl, ⟨element, helement, hannounced⟩, rfl⟩
    obtain rfl := ElementType.byte_of_ofByte? helement
    exact .intro hannounced
  · rintro ⟨announced⟩
    exact ⟨_, _, _, rfl, ⟨_, ElementType.ofByte?_byte _, announced⟩, rfl⟩

/-- No type begins with the mark of the sentinel. -/
theorem unmarked_derives_within (levels : Nat) :
    Grammar.Unmarked fun (type : TypeSig) bytes =>
      type.Derives .wideEnough bytes ∧ type.depth ≤ levels :=
  fun type bytes h => unmarked_derivesWith _ _ type bytes (derives_iff.1 h.1)

/-- With levels left a type is read if it has no more levels than these. -/
theorem recognizes_decodeWithin (limit levels : Nat) :
    (decodeWithin limit levels).Recognizes fun type bytes =>
      type.Derives .wideEnough bytes ∧ type.depth ≤ levels := by
  induction levels with
  | zero =>
    intro start type stop
    rw [decodeWithin_zero]
    constructor
    · rintro ⟨⟩
    · rintro ⟨_, ⟨_, hdepth⟩, _⟩
      exact absurd (depth_pos type) (Nat.not_lt_of_le hdepth)
  | succ levels ih =>
    rw [decodeWithin_succ]
    refine (recognizes_decodeWith ih (unmarked_derives_within levels)).congr fun type bytes => ?_
    rw [derivesWith_and_iff, ← derives_iff, depth_le_succ_iff]

/-- A type is read exactly if bytes ahead derive it and the limit admits its depth. -/
theorem run_decode_eq_ok_iff {options : DecodeOptions} {type : TypeSig} {start stop : Cursor} :
    (decode options).run start = .ok type stop ↔
      ∃ bytes, (type.Derives .wideEnough bytes ∧ type.depth ≤ options.limit) ∧
        start.Passes bytes stop :=
  recognizes_decodeWithin _ _ _ _ _

end TypeSig

end SignatureBlob
