import SignatureBlob.Proofs.Grammar
import SignatureBlob.Reader

/-!
# Recognition

A decoder recognizes a grammar if what it reads with success is what the grammar has: every value
that it returns is derived by the bytes that it went over, and from every place with derived bytes
ahead it goes over these and returns their value, whatever bytes follow. The law is stated once for
each way to combine decoders, so that a decoder built of known ones recognizes the grammar built in
the same way.

Main statements: `Decoder.recognizes_bind`, `Decoder.recognizes_list` and
`Decoder.recognizes_located_bind`.
-/

namespace SignatureBlob

/-! ## Moving over bytes -/

namespace Cursor

/-- The cursor goes over `bytes` and arrives at `stop`. -/
def Passes (start : Cursor) (bytes : List UInt8) (stop : Cursor) : Prop :=
  start.ahead = bytes ++ stop.ahead ∧ stop.position = start.position + bytes.length

variable {start stop : Cursor} {bytes first second : List UInt8}

/-- To go over no bytes is to stay. -/
theorem passes_nil_iff : start.Passes [] stop ↔ stop = start := by
  obtain ⟨place, ahead⟩ := start
  obtain ⟨place', ahead'⟩ := stop
  simp only [Passes, List.nil_append, List.length_nil, Nat.add_zero, Cursor.mk.injEq]
  constructor
  · rintro ⟨rfl, rfl⟩
    exact ⟨rfl, rfl⟩
  · rintro ⟨rfl, rfl⟩
    exact ⟨rfl, rfl⟩

/-- To go over a byte and more is to find it ahead and go over the rest. -/
theorem passes_cons_iff {place : Nat} {ahead : List UInt8} {byte : UInt8} :
    (Cursor.mk place ahead).Passes (byte :: bytes) stop ↔
      ∃ rest, ahead = byte :: rest ∧ (Cursor.mk (place + 1) rest).Passes bytes stop := by
  simp only [Passes, List.cons_append, List.length_cons]
  constructor
  · rintro ⟨hahead, hposition⟩
    exact ⟨_, hahead, rfl, by omega⟩
  · rintro ⟨rest, rfl, rfl, hposition⟩
    exact ⟨rfl, by omega⟩

/-- To go over two parts is to go over one after the other. -/
theorem passes_append_iff :
    start.Passes (first ++ second) stop ↔
      ∃ middle, start.Passes first middle ∧ middle.Passes second stop := by
  constructor
  · rintro ⟨hahead, hposition⟩
    refine ⟨⟨start.position + first.length, second ++ stop.ahead⟩, ⟨?_, rfl⟩, rfl, ?_⟩
    · rw [hahead, List.append_assoc]
    · rw [hposition, List.length_append, Nat.add_assoc]
  · rintro ⟨middle, ⟨hahead, hposition⟩, hahead', hposition'⟩
    refine ⟨?_, ?_⟩
    · rw [hahead, hahead', List.append_assoc]
    · rw [hposition', hposition, List.length_append, Nat.add_assoc]

/-- From the start of a blob a cursor arrives exactly behind the bytes that it went over. -/
theorem passes_start_iff {blob : List UInt8} :
    (Cursor.start blob).Passes bytes stop ↔
      stop.position ≤ blob.length ∧ bytes = blob.take stop.position ∧
        stop.ahead = blob.drop stop.position := by
  simp only [Passes, Cursor.start, Nat.zero_add]
  constructor
  · rintro ⟨rfl, hposition⟩
    simp [hposition]
  · rintro ⟨hle, rfl, hahead⟩
    rw [hahead, List.take_append_drop, List.length_take]
    exact ⟨rfl, by omega⟩

end Cursor

/-! ## Recognizers -/

namespace Decoder

variable {α β : Type}

/-- Decoders with the same runs are the same. -/
theorem ext {first second : Decoder α} (h : ∀ start, first.run start = second.run start) :
    first = second := by
  obtain ⟨run⟩ := first
  obtain ⟨run'⟩ := second
  congr
  funext start
  exact h start

/-- To change nothing about a result changes nothing. -/
theorem id_map (decoder : Decoder α) : id <$> decoder = decoder := by
  apply ext
  intro start
  rw [run_map]
  cases decoder.run start <;> rfl

/-- It does not matter how a sequence of three is bracketed. -/
theorem bind_bind {γ : Type} (first : Decoder α) (next : α → Decoder β) (last : β → Decoder γ) :
    first >>= next >>= last = first >>= fun value => next value >>= last := by
  apply ext
  intro start
  cases hrun : first.run start with
  | ok value stop => simp only [bind, hrun]
  | error error stop => simp only [bind, hrun]

instance : LawfulMonad Decoder := .mk' Decoder id_map (fun _ _ => rfl) bind_bind

/-- The decoder reads exactly what the grammar has. -/
def Recognizes (decoder : Decoder α) (grammar : α → List UInt8 → Prop) : Prop :=
  ∀ start value stop, decoder.run start = .ok value stop ↔
    ∃ bytes, grammar value bytes ∧ start.Passes bytes stop

variable {decoder first : Decoder α} {grammar other : α → List UInt8 → Prop}
  {next : α → Decoder β} {rest : α → β → List UInt8 → Prop}

/-- The grammar may be replaced by one with the same bytes. -/
theorem Recognizes.congr (h : decoder.Recognizes grammar)
    (hiff : ∀ value bytes, grammar value bytes ↔ other value bytes) : decoder.Recognizes other := by
  intro start value stop
  rw [h]
  exact exists_congr fun bytes => and_congr_left fun _ => hiff value bytes

/-! ## Sequences -/

/-- A value that is returned has no bytes. -/
theorem recognizes_pure (value : α) :
    (pure value : Decoder α).Recognizes fun result bytes => result = value ∧ bytes = [] := by
  intro start result stop
  rw [run_pure, Outcome.ok.injEq]
  constructor
  · rintro ⟨rfl, rfl⟩
    exact ⟨[], ⟨rfl, rfl⟩, Cursor.passes_nil_iff.2 rfl⟩
  · rintro ⟨_, ⟨rfl, rfl⟩, hpasses⟩
    exact ⟨rfl, (Cursor.passes_nil_iff.1 hpasses).symm⟩

/-- What refuses a byte reads nothing. -/
theorem recognizes_refuse (offset : Nat) (observed : UInt8) (defect : Defect) :
    (refuse offset observed defect : Decoder α).Recognizes fun _ _ => False := by
  intro start value stop
  simp

/-- What fails reads nothing. -/
theorem recognizes_fail (error : Error) : (fail error : Decoder α).Recognizes fun _ _ => False := by
  intro start value stop
  simp

/-- A sequence reads bytes of the first and then bytes of the next. -/
theorem recognizes_bind (hfirst : first.Recognizes grammar)
    (hnext : ∀ value, (next value).Recognizes (rest value)) :
    (first >>= next).Recognizes fun result bytes =>
      ∃ value front back, grammar value front ∧ rest value result back ∧ bytes = front ++ back := by
  intro start result stop
  rw [run_bind_eq_ok_iff]
  constructor
  · rintro ⟨value, middle, hrun, hrest⟩
    obtain ⟨front, hvalue, hfront⟩ := (hfirst _ _ _).1 hrun
    obtain ⟨back, hresult, hback⟩ := (hnext _ _ _ _).1 hrest
    exact ⟨front ++ back, ⟨value, front, back, hvalue, hresult, rfl⟩,
      Cursor.passes_append_iff.2 ⟨middle, hfront, hback⟩⟩
  · rintro ⟨_, ⟨value, front, back, hvalue, hresult, rfl⟩, hpasses⟩
    obtain ⟨middle, hfront, hback⟩ := Cursor.passes_append_iff.1 hpasses
    exact ⟨value, middle, (hfirst _ _ _).2 ⟨front, hvalue, hfront⟩,
      (hnext _ _ _ _).2 ⟨back, hresult, hback⟩⟩

/-- A value that is read last is wrapped. -/
theorem recognizes_map (hfirst : first.Recognizes grammar) (f : α → β) :
    (first >>= fun value => pure (f value)).Recognizes fun result bytes =>
      ∃ value, grammar value bytes ∧ result = f value := by
  refine (recognizes_bind hfirst fun value => recognizes_pure (f value)).congr ?_
  intro result bytes
  constructor
  · rintro ⟨value, front, _, hvalue, ⟨rfl, rfl⟩, rfl⟩
    exact ⟨value, by rwa [List.append_nil], rfl⟩
  · rintro ⟨value, hvalue, rfl⟩
    exact ⟨value, bytes, [], hvalue, ⟨rfl, rfl⟩, (List.append_nil bytes).symm⟩

/-- A decoder behind a check that refuses. -/
theorem recognizes_ite (condition : Prop) [Decidable condition] {refused : Decoder α}
    (hrefused : refused.Recognizes fun _ _ => False) (h : decoder.Recognizes grammar) :
    (if condition then refused else decoder).Recognizes fun value bytes =>
      ¬ condition ∧ grammar value bytes := by
  by_cases hcondition : condition
  · simpa only [hcondition, if_true, not_true_eq_false, false_and] using hrefused
  · simpa only [hcondition, if_false, not_false_eq_true, true_and] using h

/-! ## Primitive reads -/

/-- To take a byte reads any single byte. -/
theorem recognizes_byte : byte.Recognizes fun value bytes => bytes = [value] := by
  intro start value stop
  obtain ⟨place, ahead⟩ := start
  have hpasses : (∃ bytes, bytes = [value] ∧ (Cursor.mk place ahead).Passes bytes stop) ↔
      ∃ rest, ahead = value :: rest ∧ stop = ⟨place + 1, rest⟩ := by
    simp only [exists_eq_left, Cursor.passes_cons_iff, Cursor.passes_nil_iff]
  rw [hpasses]
  cases ahead with
  | nil => simp
  | cons next ahead =>
    simp only [run_byte_cons, Outcome.ok.injEq, List.cons.injEq]
    constructor
    · rintro ⟨rfl, rfl⟩
      exact ⟨ahead, ⟨rfl, rfl⟩, rfl⟩
    · rintro ⟨_, ⟨rfl, rfl⟩, rfl⟩
      exact ⟨rfl, rfl⟩

/-- To step over a byte reads any single byte, too. -/
theorem recognizes_skip : skip.Recognizes fun _ bytes => ∃ value, bytes = [value] := by
  refine (recognizes_map recognizes_byte fun _ => ()).congr ?_
  intro result bytes
  simp

/-- What is asked of the cursor does not matter to what is read. -/
theorem recognizes_ask_bind {question : Cursor → α} {grammar : β → List UInt8 → Prop}
    (hnext : ∀ answer, (next answer).Recognizes grammar) :
    (ask question >>= next).Recognizes grammar := by
  intro start value stop
  rw [run_bind_ok (run_ask question start)]
  exact hnext _ _ _ _

/-- The byte that is seen ahead is the first of those that are read next. -/
theorem recognizes_peek_bind {next : UInt8 → Decoder α} {rest : UInt8 → α → List UInt8 → Prop}
    (hnext : ∀ lead, (next lead).Recognizes (rest lead))
    (hmoves : ∀ lead value, ¬ rest lead value []) :
    (peek >>= next).Recognizes fun value bytes =>
      ∃ lead back, rest lead value bytes ∧ bytes = lead :: back := by
  intro start value stop
  obtain ⟨place, ahead⟩ := start
  cases ahead with
  | nil =>
    rw [run_bind_error (run_peek_nil place)]
    simp only [reduceCtorEq, false_iff]
    rintro ⟨_, ⟨lead, back, _, rfl⟩, hpasses⟩
    obtain ⟨_, hahead, _⟩ := Cursor.passes_cons_iff.1 hpasses
    cases hahead
  | cons seen ahead =>
    rw [run_bind_ok (run_peek_cons place seen ahead), hnext]
    constructor
    · rintro ⟨bytes, hrest, hpasses⟩
      cases bytes with
      | nil => exact absurd hrest (hmoves seen value)
      | cons lead back =>
        obtain ⟨_, hahead, _⟩ := Cursor.passes_cons_iff.1 hpasses
        obtain ⟨rfl, rfl⟩ := List.cons.inj hahead
        exact ⟨_, ⟨seen, back, hrest, rfl⟩, hpasses⟩
    · rintro ⟨_, ⟨lead, back, hrest, rfl⟩, hpasses⟩
      obtain ⟨_, hahead, _⟩ := Cursor.passes_cons_iff.1 hpasses
      obtain ⟨rfl, rfl⟩ := List.cons.inj hahead
      exact ⟨_, hrest, hpasses⟩

/-! ## Combinations -/

/-- Where a value began is found by a look at its first byte. -/
theorem located_bind_eq (decoder : Decoder α) (next : Located α → Decoder β) :
    decoder.located >>= next = position >>= fun offset => peek >>= fun lead =>
      decoder >>= fun value => next ⟨offset, lead, value⟩ := by
  simp only [located, bind_assoc, pure_bind]

/-- Where a value began and with which byte does not matter to what is read behind it. -/
theorem recognizes_located_bind {next : Located α → Decoder β} (h : decoder.Recognizes grammar)
    (hmoves : ∀ value, ¬ grammar value [])
    (hnext : ∀ offset lead value, (next ⟨offset, lead, value⟩).Recognizes (rest value)) :
    (decoder.located >>= next).Recognizes fun result bytes =>
      ∃ value front back, grammar value front ∧ rest value result back ∧ bytes = front ++ back := by
  have hpeek : ∀ offset, (peek >>= fun lead => decoder >>= fun value =>
      next ⟨offset, lead, value⟩).Recognizes fun result bytes => ∃ lead tail,
        (∃ value front back, grammar value front ∧ rest value result back ∧ bytes = front ++ back) ∧
          bytes = lead :: tail := by
    intro offset
    refine recognizes_peek_bind
      (fun lead => recognizes_bind h fun value => hnext offset lead value) ?_
    rintro _ _ ⟨value, front, back, hvalue, _, happend⟩
    obtain ⟨rfl, rfl⟩ := List.append_eq_nil_iff.1 happend.symm
    exact hmoves value hvalue
  rw [located_bind_eq]
  refine (recognizes_ask_bind hpeek).congr ?_
  intro result bytes
  constructor
  · rintro ⟨_, _, hread, _⟩
    exact hread
  · rintro ⟨value, front, back, hvalue, hresult, rfl⟩
    cases front with
    | nil => exact absurd hvalue (hmoves value)
    | cons lead front =>
      exact ⟨lead, front ++ back, ⟨value, _, back, hvalue, hresult, rfl⟩, rfl⟩

/-- To go back at an error does not matter to what is read. -/
theorem recognizes_transaction (h : decoder.Recognizes grammar) :
    decoder.transaction.Recognizes grammar := by
  intro start value stop
  rw [← h, run_transaction_eq_ok_iff]

/-- A list is read as its members one by one. -/
theorem recognizes_list (h : decoder.Recognizes grammar) (count : Nat) :
    (decoder.list count).Recognizes fun values bytes =>
      values.length = count ∧ Grammar.Each grammar values bytes := by
  induction count with
  | zero =>
    refine (recognizes_pure []).congr ?_
    intro values bytes
    constructor
    · rintro ⟨rfl, rfl⟩
      exact ⟨rfl, .nil⟩
    · rintro ⟨hlength, heach⟩
      obtain rfl := List.length_eq_zero_iff.1 hlength
      cases heach
      exact ⟨rfl, rfl⟩
  | succ count ih =>
    refine (recognizes_bind h fun value => recognizes_map ih (value :: ·)).congr ?_
    intro values bytes
    constructor
    · rintro ⟨value, front, back, hvalue, ⟨others, ⟨hlength, heach⟩, rfl⟩, rfl⟩
      exact ⟨by rw [List.length_cons, hlength], .cons hvalue heach⟩
    · rintro ⟨hlength, heach⟩
      cases heach with
      | nil => cases hlength
      | cons head tail =>
        exact ⟨_, _, _, head, ⟨_, ⟨Nat.succ.inj hlength, tail⟩, rfl⟩, rfl⟩

end Decoder

end SignatureBlob
