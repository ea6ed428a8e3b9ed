import SignatureBlob.Proofs.SignatureRecognition

/-!
# The sentinel of a method

The parameters are read by a loop that goes round once more for the sentinel mark. The mark takes a
byte and does not count as a parameter, so what is read behind it is what would have been read
without it; all that is new is that a second mark is refused from there on. A mark inside a
parameter belongs to another method, which has been read whole before the next look for a mark.

A blob without a mark is cut in front of a parameter, and the run is followed over the two parts.

Main statement: `MethodSig.decode_marked` (what a mark does in front of each parameter and
behind the last).
-/

namespace SignatureBlob

open Decoder CompressedInt

/-! ## Parts of a list of values -/

/-- The bytes of two lists are those of the one and then those of the other. -/
theorem Grammar.each_append_iff {α : Type} {item : α → List UInt8 → Prop} {values rest : List α}
    {bytes : List UInt8} :
    Each item (values ++ rest) bytes ↔
      ∃ front back, Each item values front ∧ Each item rest back ∧ bytes = front ++ back := by
  constructor
  · intro h
    induction values generalizing bytes with
    | nil => exact ⟨[], bytes, .nil, h, rfl⟩
    | cons value values ih =>
      cases h with
      | cons head tail =>
        obtain ⟨front, back, hfront, hback, rfl⟩ := ih tail
        exact ⟨_, back, .cons head hfront, hback, (List.append_assoc _ _ _).symm⟩
  · rintro ⟨front, back, hfront, hback, rfl⟩
    induction hfront with
    | nil => exact hback
    | cons head _ ih =>
      rw [List.append_assoc]
      exact .cons head ih

/-- What is put in behind a front stands between it and the back. -/
theorem insertIdx_length_append {α : Type} (front back : List α) (value : α) :
    (front ++ back).insertIdx front.length value = front ++ value :: back := by
  induction front with
  | nil => rfl
  | cons _ front ih => exact congrArg (_ :: ·) ih

/-- To change a value twice is to change it once by both. -/
theorem Outcome.map_map {α β γ : Type} (outcome : Outcome α) (f : α → β) (g : β → γ) :
    (outcome.map f).map g = outcome.map (g ∘ f) := by
  cases outcome <;> rfl

/-- Two conventions admit the mark. -/
theorem Convention.admitsVarArgs_eq_true_iff {convention : Convention} :
    convention.admitsVarArgs = true ↔ convention = .varArg ∨ convention = .cdecl := by
  cases convention <;> decide

namespace MethodSig

variable {inner : Decoder TypeSig} {grammar : TypeSig → List UInt8 → Prop}
  {convention : Convention} {index place : Nat} {seen : Option Nat} {ahead : List UInt8}

/-! ## The loop over the parameters -/

/-- A mark that may not stand is blamed, before it is gone over. -/
theorem run_decodeSentinel_unexpected
    (h : (seen.isSome || !convention.admitsVarArgs) = true) :
    (decodeSentinel convention index seen).run ⟨place, ElementType.sentinelByte :: ahead⟩ =
      .error (.invalidEncoding place ElementType.sentinelByte (.unexpectedSentinel convention))
        ⟨place, ElementType.sentinelByte :: ahead⟩ := by
  rw [decodeSentinel, run_bind_ok (run_position _), run_bind_ok (run_peek_cons _ _ _),
    if_neg (not_not_intro rfl), if_pos h, run_refuse]

/-- A mark that may stand is gone over, and the loop goes on as where it has been seen. -/
theorem run_decodeParams_mark (hadmits : convention.admitsVarArgs = true) {count : Nat}
    (hcount : 0 < count) :
    (decodeParams inner convention count index none).run
        ⟨place, ElementType.sentinelByte :: ahead⟩ =
      (decodeParams inner convention count index (some index)).run ⟨place + 1, ahead⟩ := by
  obtain - | count := count
  · exact absurd hcount (Nat.lt_irrefl 0)
  · simp only [decodeParams, bind, run_decodeSentinel_again hadmits]

/-- A mark that may not stand ends the loop. -/
theorem run_decodeParams_unexpected (h : (seen.isSome || !convention.admitsVarArgs) = true)
    {count : Nat} (hcount : 0 < count) :
    (decodeParams inner convention count index seen).run
        ⟨place, ElementType.sentinelByte :: ahead⟩ =
      .error (.invalidEncoding place ElementType.sentinelByte (.unexpectedSentinel convention))
        ⟨place, ElementType.sentinelByte :: ahead⟩ := by
  obtain - | count := count
  · exact absurd hcount (Nat.lt_irrefl 0)
  · exact run_bind_error (run_decodeSentinel_unexpected h) _

/-- Parameters without a mark are gone over, and the loop goes on behind them. -/
theorem run_decodeParams_append (hinner : inner.Recognizes grammar)
    (hunmarked : Grammar.Unmarked grammar) {params : List TypeSig} {bytes : List UInt8}
    (h : Grammar.Each grammar params bytes) (count index place : Nat) :
    (decodeParams inner convention (params.length + count) index seen).run ⟨place, bytes ++ ahead⟩ =
      ((decodeParams inner convention count (index + params.length) seen).run
        ⟨place + bytes.length, ahead⟩).map fun found => (params ++ found.1, found.2) := by
  induction h generalizing index place with
  | nil =>
    simp only [List.length_nil, Nat.zero_add, Nat.add_zero, List.nil_append]
    cases (decodeParams inner convention count index seen).run ⟨place, ahead⟩ <;> rfl
  | @cons param params bytes rest head tail ih =>
    -- no mark stands in front of the parameter, so it is read next
    have hlook : (decodeSentinel convention index seen).run ⟨place, bytes ++ rest ++ ahead⟩ =
        .ok seen ⟨place, bytes ++ rest ++ ahead⟩ := by
      obtain ⟨lead, back, rfl, hlead⟩ := hunmarked param bytes head
      exact run_decodeSentinel_of_ne hlead
    have hparam : inner.run ⟨place, bytes ++ rest ++ ahead⟩ =
        .ok param ⟨place + bytes.length, rest ++ ahead⟩ :=
      (hinner _ _ _).2 ⟨bytes, head, List.append_assoc _ _ _, rfl⟩
    have hindex : index + (params.length + 1) = index + 1 + params.length := by omega
    have hplace : place + (bytes ++ rest).length = place + bytes.length + rest.length := by
      rw [List.length_append, Nat.add_assoc]
    rw [List.length_cons, Nat.succ_add, decodeParams, run_bind_ok hlook, run_bind_ok hparam,
      hindex, hplace]
    have hrest := ih (index + 1) (place + bytes.length)
    cases hfound : (decodeParams inner convention count (index + 1 + params.length) seen).run
        ⟨place + bytes.length + rest.length, ahead⟩ with
    | ok found stop =>
      rw [hfound] at hrest
      exact run_bind_ok hrest _
    | error error stop =>
      rw [hfound] at hrest
      exact run_bind_error hrest _

/-! ## The places of the parameters -/

/-- Everything in front of the parameters: the header, their number and the result. -/
def decodeHead (inner : Decoder TypeSig) : Decoder (MethodHeader × Nat × TypeSig) := do
  let header ← MethodHeader.decode
  let count ← decodeUnsigned
  let result ← inner
  return (header, count, result)

/-- The place where the parameter at `index` begins in a blob without a mark. The place of a
parameter behind the last one is the end of the signature. -/
def paramOffset? (options : DecodeOptions) (blob : List UInt8) (index : Nat) : Option Nat :=
  match (decodeHead (TypeSig.decode options) >>= fun _ =>
      (TypeSig.decode options).list index).run (.start blob) with
  | .ok _ stop => some stop.position
  | .error _ _ => none

/-- The blob with one more mark, which is in front of the byte at `place`. -/
def marked (blob : List UInt8) (place : Nat) : List UInt8 :=
  blob.insertIdx place ElementType.sentinelByte

/-- A mark in front of the back stands between it and the front. -/
theorem marked_append_append {head front : List UInt8} {place : Nat}
    (hplace : place = head.length + front.length) (back : List UInt8) :
    marked (head ++ (front ++ back)) place =
      head ++ (front ++ ElementType.sentinelByte :: back) := by
  rw [hplace, ← List.length_append, marked, ← List.append_assoc, insertIdx_length_append,
    List.append_assoc]

/-- So does each of two marks, the second moved on by the first. -/
theorem marked_marked_append (head first second back : List UInt8) :
    marked (marked (head ++ (first ++ (second ++ back))) (head.length + first.length))
        (head.length + first.length + 1 + second.length) =
      head ++ (first ++ ElementType.sentinelByte ::
        (second ++ ElementType.sentinelByte :: back)) := by
  have hfront : head ++ (first ++ ElementType.sentinelByte :: (second ++ back)) =
      head ++ ((first ++ ElementType.sentinelByte :: second) ++ back) := by
    rw [List.append_assoc, List.cons_append]
  rw [marked_append_append rfl, hfront, marked_append_append, List.append_assoc, List.cons_append]
  rw [List.length_append, List.length_cons]
  omega

/-- What is ahead of the place is the back. -/
theorem drop_append_append {head front : List UInt8} {place : Nat}
    (hplace : place = head.length + front.length) (back : List UInt8) :
    (head ++ (front ++ back)).drop place = back := by
  rw [hplace, ← List.length_append, ← List.append_assoc, List.drop_left]

/-- A method is read as its head and its parameters. -/
theorem decodeWith_eq_decodeHead_bind (inner : Decoder TypeSig) :
    decodeWith inner = decodeHead inner >>= fun head =>
      (fun found => ⟨{ head.1 with sentinel := found.2 }, head.2.2, found.1⟩) <$>
        decodeParams inner head.1.convention head.2.1 0 none := by
  rw [decodeWith_eq]
  simp only [decodeHead, bind_assoc, pure_bind, map_eq_pure_bind]

/-- A head is a header, a number of parameters and a result. -/
theorem recognizes_decodeHead (hinner : inner.Recognizes grammar) :
    (decodeHead inner).Recognizes fun head bytes => head.1.sentinel = none ∧ ∃ first second third,
      head.1.Derives .wideEnough first ∧ DerivesUnsigned .wideEnough head.2.1 second ∧
        grammar head.2.2 third ∧ bytes = first ++ (second ++ third) := by
  refine (recognizes_bind MethodHeader.recognizes_decode fun header =>
    recognizes_bind recognizes_decodeUnsigned fun count =>
      recognizes_map hinner fun result => (header, count, result)).congr ?_
  rintro ⟨header, count, result⟩ bytes
  constructor
  · rintro ⟨_, first, _, ⟨hheader, hnone⟩, ⟨_, second, third, hcount, ⟨_, hresult, hhead⟩, rfl⟩,
      rfl⟩
    obtain ⟨rfl, rfl, rfl⟩ := hhead
    exact ⟨hnone, first, second, third, hheader, hcount, hresult, rfl⟩
  · rintro ⟨hnone, first, second, third, hheader, hcount, hresult, rfl⟩
    exact ⟨header, first, _, ⟨hheader, hnone⟩,
      ⟨count, second, third, hcount, ⟨result, hresult, rfl⟩, rfl⟩, rfl⟩

/-- The bytes are the front of a method signature, whatever parameters follow. -/
def IsHead (options : DecodeOptions) (head : List UInt8) (header : MethodHeader) (count : Nat)
    (result : TypeSig) : Prop :=
  ∀ ahead, (decodeHead (TypeSig.decode options)).run (.start (head ++ ahead)) =
    .ok (header, count, result) ⟨head.length, ahead⟩

/-- Types in the order of their bytes, each of which can be read. -/
def Spelled (options : DecodeOptions) : List TypeSig → List UInt8 → Prop :=
  Grammar.Each fun type bytes => type.Derives .wideEnough bytes ∧ type.depth ≤ options.limit

section

variable {options : DecodeOptions} {maxDepth : Nat} {head bytes : List UInt8}
  {header : MethodHeader} {count : Nat} {result : TypeSig} {params : List TypeSig}

/-- Behind a head, a method goes on as its parameters do. -/
theorem IsHead.run_decode (h : IsHead ⟨maxDepth, false⟩ head header count result)
    (ahead : List UInt8) :
    (decode ⟨maxDepth, false⟩).run (.start (head ++ ahead)) =
      ((decodeParams (TypeSig.decode ⟨maxDepth, false⟩) header.convention count 0 none).run
        ⟨head.length, ahead⟩).map fun found =>
          ⟨{ header with sentinel := found.2 }, result, found.1⟩ := by
  rw [decode, whole_of_not_strict, decodeWith_eq_decodeHead_bind, run_bind_ok (h ahead), run_map]

/-- Behind a head and some parameters the next parameter begins. -/
theorem IsHead.paramOffset?_eq (h : IsHead options head header count result)
    (hparams : Spelled options params bytes) (ahead : List UInt8) :
    paramOffset? options (head ++ (bytes ++ ahead)) params.length =
      some (head.length + bytes.length) := by
  have hlist : ((TypeSig.decode options).list params.length).run ⟨head.length, bytes ++ ahead⟩ =
      .ok params ⟨head.length + bytes.length, ahead⟩ :=
    (recognizes_list (TypeSig.recognizes_decodeWithin _ _) _ _ _ _).2
      ⟨bytes, ⟨rfl, hparams⟩, rfl, rfl⟩
  rw [paramOffset?, run_bind_ok (h _), hlist]

end

/-- A place in a list of parameters cuts their bytes too. -/
theorem Spelled.exists_cut {options : DecodeOptions} {params : List TypeSig} {bytes : List UInt8}
    (h : Spelled options params bytes) {index : Nat} (hindex : index ≤ params.length) :
    ∃ before behind first second, params = before ++ behind ∧ before.length = index ∧
      bytes = first ++ second ∧ Spelled options before first ∧ Spelled options behind second := by
  rw [← List.take_append_drop index params] at h
  obtain ⟨first, second, hbefore, hbehind, rfl⟩ := Grammar.each_append_iff.1 h
  exact ⟨_, _, first, second, (List.take_append_drop index params).symm,
    List.length_take_of_le hindex, rfl, hbefore, hbehind⟩

/-- Two places in a list of parameters cut it into three. -/
theorem Spelled.exists_cut_cut {options : DecodeOptions} {params : List TypeSig}
    {bytes : List UInt8} (h : Spelled options params bytes) {i j : Nat} (hij : i ≤ j)
    (hj : j ≤ params.length) :
    ∃ before between after first second third, params = before ++ (between ++ after) ∧
      before.length = i ∧ before.length + between.length = j ∧
      bytes = first ++ (second ++ third) ∧ Spelled options before first ∧
      Spelled options between second ∧ Spelled options after third := by
  obtain ⟨before, behind, first, _, rfl, rfl, rfl, hbefore, hbehind⟩ :=
    h.exists_cut (Nat.le_trans hij hj)
  have hindex : j - before.length ≤ behind.length := by
    rw [List.length_append] at hj
    omega
  obtain ⟨between, after, second, third, rfl, hlength, rfl, hbetween, hafter⟩ :=
    hbehind.exists_cut hindex
  exact ⟨before, between, after, first, second, third, rfl, rfl, by omega, rfl, hbefore, hbetween,
    hafter⟩

/-- Parameters take bytes if there are any. -/
theorem Spelled.length_pos {options : DecodeOptions} {params : List TypeSig} {bytes : List UInt8}
    (h : Spelled options params bytes) (hparams : 0 < params.length) : 0 < bytes.length := by
  cases h with
  | nil => exact hparams
  | cons head _ =>
    obtain ⟨lead, front, rfl, -⟩ := TypeSig.unmarked_derives_within _ _ _ head
    exact Nat.succ_pos _

/-- The offsets tell where each parameter begins if the bytes of all of them stand behind `head`. -/
def Locates (options : DecodeOptions) (head bytes : List UInt8) (offset : Nat → Nat) : Prop :=
  ∀ before first second, bytes = first ++ second → Spelled options before first →
    offset before.length = head.length + first.length

section

variable {options : DecodeOptions} {head bytes rest first second third : List UInt8}
  {header : MethodHeader} {result : TypeSig} {params before between : List TypeSig}
  {offset : Nat → Nat}

/-- Behind a head the parameters of a blob have places that tell where they begin. -/
theorem IsHead.exists_locates (h : IsHead options head header params.length result)
    (hspelled : Spelled options params bytes) (rest : List UInt8) :
    ∃ offset, Locates options head bytes offset ∧
      ∀ i ≤ params.length, paramOffset? options (head ++ (bytes ++ rest)) i = some (offset i) := by
  have hplace : ∀ before first second, bytes = first ++ second → Spelled options before first →
      paramOffset? options (head ++ (bytes ++ rest)) before.length =
        some (head.length + first.length) := by
    rintro before first second rfl hbefore
    rw [List.append_assoc]
    exact h.paramOffset?_eq hbefore (second ++ rest)
  refine ⟨fun i => (paramOffset? options (head ++ (bytes ++ rest)) i).getD 0, ?_, fun i hi => ?_⟩
  · intro before first second hbytes hbefore
    simp only [hplace before first second hbytes hbefore, Option.getD_some]
  · obtain ⟨before, _, first, second, -, rfl, hbytes, hbefore, -⟩ := hspelled.exists_cut hi
    simp only [hplace before first second hbytes hbefore, Option.getD_some]

/-- The parameters between two of them are all that lies between their places. -/
theorem Locates.add_length (h : Locates options head (first ++ (second ++ third)) offset)
    (hbefore : Spelled options before first) (hbetween : Spelled options between second) :
    offset (before.length + between.length) = offset before.length + second.length := by
  have hboth := Grammar.each_append_iff.2 ⟨first, second, hbefore, hbetween, rfl⟩
  have hplace := h _ _ _ (List.append_assoc first second third).symm hboth
  rw [List.length_append, List.length_append, ← Nat.add_assoc] at hplace
  rw [hplace, h _ _ _ rfl hbefore]

/-- Each parameter begins before the next. -/
theorem Locates.lt_succ (h : Locates options head bytes offset)
    (hspelled : Spelled options params bytes) {i : Nat} (hi : i < params.length) :
    offset i < offset (i + 1) := by
  obtain ⟨before, between, _, first, second, third, -, rfl, hnext, rfl, hbefore, hbetween, -⟩ :=
    hspelled.exists_cut_cut (Nat.le_add_right i 1) hi
  have hpos := hbetween.length_pos (by omega)
  rw [← hnext, h.add_length hbefore hbetween]
  omega

end

/-- Parameters that stand ahead are read, and the reader goes on with the others. -/
theorem Spelled.run_decodeParams {options : DecodeOptions} {params : List TypeSig}
    {bytes : List UInt8} (h : Spelled options params bytes) (count index place : Nat)
    (ahead : List UInt8) :
    (decodeParams (TypeSig.decode options) convention (params.length + count) index seen).run
        ⟨place, bytes ++ ahead⟩ =
      ((decodeParams (TypeSig.decode options) convention count (index + params.length) seen).run
        ⟨place + bytes.length, ahead⟩).map fun found => (params ++ found.1, found.2) :=
  run_decodeParams_append (TypeSig.recognizes_decodeWithin _ _) (TypeSig.unmarked_derives_within _)
    h count index place

/-! ## Marks in front of a parameter -/

section

variable {maxDepth count : Nat} {head first second : List UInt8} {header : MethodHeader}
  {result : TypeSig} {before behind : List TypeSig}

/-- A method is read up to one of its parameters. -/
theorem IsHead.run_decode_append
    (h : IsHead ⟨maxDepth, false⟩ head header (before.length + count) result)
    (hbefore : Spelled ⟨maxDepth, false⟩ before first) (ahead : List UInt8) :
    (decode ⟨maxDepth, false⟩).run (.start (head ++ (first ++ ahead))) =
      ((decodeParams (TypeSig.decode ⟨maxDepth, false⟩) header.convention count before.length
        none).run ⟨head.length + first.length, ahead⟩).map fun found =>
          ⟨{ header with sentinel := found.2 }, result, before ++ found.1⟩ := by
  rw [h.run_decode, hbefore.run_decodeParams, Nat.zero_add, Outcome.map_map]
  rfl

/-- With nothing in front of the next bytes, these are left alone. -/
theorem IsHead.run_decode_of_spelled
    (h : IsHead ⟨maxDepth, false⟩ head header before.length result)
    (hbefore : Spelled ⟨maxDepth, false⟩ before first) (ahead : List UInt8) :
    (decode ⟨maxDepth, false⟩).run (.start (head ++ (first ++ ahead))) =
      .ok ⟨{ header with sentinel := none }, result, before⟩
        ⟨head.length + first.length, ahead⟩ := by
  rw [← Nat.add_zero before.length] at h
  rw [h.run_decode_append hbefore, decodeParams, run_pure, Outcome.map, List.append_nil]

/-- A mark that the convention does not have is blamed. -/
theorem IsHead.run_decode_unexpected (hadmits : header.convention.admitsVarArgs = false)
    (hcount : 0 < count) (h : IsHead ⟨maxDepth, false⟩ head header (before.length + count) result)
    (hbefore : Spelled ⟨maxDepth, false⟩ before first) (ahead : List UInt8) :
    (decode ⟨maxDepth, false⟩).run
        (.start (head ++ (first ++ ElementType.sentinelByte :: ahead))) =
      .error (.invalidEncoding (head.length + first.length) ElementType.sentinelByte
          (.unexpectedSentinel header.convention))
        ⟨head.length + first.length, ElementType.sentinelByte :: ahead⟩ := by
  rw [h.run_decode_append hbefore, run_decodeParams_unexpected (by rw [hadmits]; rfl) hcount]
  rfl

/-- A method is read up to a mark in front of one of its parameters, and over the parameters
behind it. -/
theorem IsHead.run_decode_mark_append (hadmits : header.convention.admitsVarArgs = true)
    (hcount : 0 < behind.length + count)
    (h : IsHead ⟨maxDepth, false⟩ head header (before.length + (behind.length + count)) result)
    (hbefore : Spelled ⟨maxDepth, false⟩ before first)
    (hbehind : Spelled ⟨maxDepth, false⟩ behind second) (ahead : List UInt8) :
    (decode ⟨maxDepth, false⟩).run
        (.start (head ++ (first ++ ElementType.sentinelByte :: (second ++ ahead)))) =
      ((decodeParams (TypeSig.decode ⟨maxDepth, false⟩) header.convention count
        (before.length + behind.length) (some before.length)).run
          ⟨head.length + first.length + 1 + second.length, ahead⟩).map fun found =>
            ⟨{ header with sentinel := found.2 }, result, before ++ (behind ++ found.1)⟩ := by
  rw [h.run_decode_append hbefore, run_decodeParams_mark hadmits hcount, hbehind.run_decodeParams,
    Outcome.map_map]
  rfl

/-- With the mark the same parameters are read, and the place of the mark is known. -/
theorem IsHead.run_decode_mark_of_spelled (hadmits : header.convention.admitsVarArgs = true)
    (hnonempty : behind ≠ [])
    (h : IsHead ⟨maxDepth, false⟩ head header (before.length + behind.length) result)
    (hbefore : Spelled ⟨maxDepth, false⟩ before first)
    (hbehind : Spelled ⟨maxDepth, false⟩ behind second) (ahead : List UInt8) :
    (decode ⟨maxDepth, false⟩).run
        (.start (head ++ (first ++ ElementType.sentinelByte :: (second ++ ahead)))) =
      .ok ⟨{ header with sentinel := some before.length }, result, before ++ behind⟩
        ⟨head.length + first.length + 1 + second.length, ahead⟩ := by
  rw [← Nat.add_zero behind.length] at h
  rw [h.run_decode_mark_append hadmits (List.length_pos_iff.2 hnonempty) hbefore hbehind,
    decodeParams, run_pure, Outcome.map, List.append_nil]

/-- A second mark is blamed, whether parameters stand before it or not. -/
theorem IsHead.run_decode_mark_mark (hadmits : header.convention.admitsVarArgs = true)
    (hcount : 0 < count)
    (h : IsHead ⟨maxDepth, false⟩ head header (before.length + (behind.length + count)) result)
    (hbefore : Spelled ⟨maxDepth, false⟩ before first)
    (hbehind : Spelled ⟨maxDepth, false⟩ behind second) (ahead : List UInt8) :
    (decode ⟨maxDepth, false⟩).run (.start (head ++ (first ++ ElementType.sentinelByte ::
        (second ++ ElementType.sentinelByte :: ahead)))) =
      .error (.invalidEncoding (head.length + first.length + 1 + second.length)
          ElementType.sentinelByte (.unexpectedSentinel header.convention))
        ⟨head.length + first.length + 1 + second.length, ElementType.sentinelByte :: ahead⟩ := by
  rw [h.run_decode_mark_append hadmits (Nat.add_pos_right _ hcount) hbefore hbehind,
    run_decodeParams_unexpected rfl hcount]
  rfl

end

/-- A method without a mark is its head and the bytes of its parameters. -/
theorem exists_isHead_of_decode {maxDepth : Nat} {blob : List UInt8} {method : MethodSig}
    {stop : Cursor} (h : (decode ⟨maxDepth, false⟩).run (.start blob) = .ok method stop)
    (hnone : method.header.sentinel = none) :
    ∃ head bytes,
      IsHead ⟨maxDepth, false⟩ head method.header method.params.length method.result ∧
      Spelled ⟨maxDepth, false⟩ method.params bytes ∧ blob = head ++ (bytes ++ stop.ahead) ∧
      stop.position = head.length + bytes.length := by
  have hinner := TypeSig.recognizes_decodeWithin (max maxDepth 1) (max maxDepth 1)
  obtain ⟨header, result, params⟩ := method
  rw [decode, whole_of_not_strict, decodeWith_eq_decodeHead_bind, run_bind_eq_ok_iff] at h
  obtain ⟨⟨read, count, _⟩, middle, hhead, hrun⟩ := h
  rw [map_eq_pure_bind, run_bind_eq_ok_iff] at hrun
  obtain ⟨⟨_, sentinel⟩, _, hparams, hvalue⟩ := hrun
  obtain ⟨hmethod, rfl⟩ := Outcome.ok.inj hvalue
  obtain ⟨hheader, rfl, rfl⟩ := MethodSig.mk.inj hmethod
  obtain ⟨first, hfirst, hahead, hplace⟩ := (recognizes_decodeHead hinner _ _ _).1 hhead
  obtain ⟨second, ⟨rfl, mark, hspelled, -, hmark⟩, hahead', hplace'⟩ :=
    (recognizes_decodeParams hinner (TypeSig.unmarked_derives_within _) _ _ _ _ _ _).1 hparams
  obtain rfl : sentinel = none := by rw [← hnone, ← hheader]
  obtain rfl : read = header := by rw [← hheader, ← hfirst.1]
  -- no mark has been seen at the end, so none stands between the parameters
  obtain rfl : mark = none := Option.map_eq_none_iff.1 hmark.symm
  obtain ⟨each⟩ := hspelled
  refine ⟨first, second, fun ahead => ?_, each, ?_, ?_⟩
  · exact (recognizes_decodeHead hinner _ _ _).2 ⟨first, hfirst, rfl, (Nat.zero_add _).symm⟩
  · exact hahead.trans (congrArg (first ++ ·) hahead')
  · rw [hplace', hplace]
    exact congrArg (· + second.length) (Nat.zero_add _)

/-- A method without a mark is read again with one more mark in it. In front of a parameter the
mark only gives its place, if the convention has it, and a second one is blamed in front of each
parameter from there on; other conventions have the first one blamed. Behind the last parameter it
is left alone. -/
theorem decode_marked {maxDepth : Nat} {blob : List UInt8} {method : MethodSig}
    {stop : Cursor} (h : (decode ⟨maxDepth, false⟩).run (.start blob) = .ok method stop)
    (hnone : method.header.sentinel = none) :
    ∃ offset : Nat → Nat,
      ((∀ i ≤ method.params.length, paramOffset? ⟨maxDepth, false⟩ blob i = some (offset i)) ∧
        (∀ i < method.params.length, offset i < offset (i + 1)) ∧
        offset method.params.length = stop.position) ∧
      (∀ i < method.params.length,
        if method.header.convention = .varArg ∨ method.header.convention = .cdecl then
          (decode ⟨maxDepth, false⟩).run (.start (marked blob (offset i))) =
            .ok { method with header := { method.header with sentinel := some i } }
              ⟨stop.position + 1, stop.ahead⟩ ∧
          ∀ j < method.params.length, i ≤ j →
            (decode ⟨maxDepth, false⟩).run
                (.start (marked (marked blob (offset i)) (offset j + 1))) =
              .error (.invalidEncoding (offset j + 1) ElementType.sentinelByte
                (.unexpectedSentinel method.header.convention))
                ⟨offset j + 1, ElementType.sentinelByte :: blob.drop (offset j)⟩
        else
          (decode ⟨maxDepth, false⟩).run (.start (marked blob (offset i))) =
            .error (.invalidEncoding (offset i) ElementType.sentinelByte
              (.unexpectedSentinel method.header.convention))
              ⟨offset i, ElementType.sentinelByte :: blob.drop (offset i)⟩) ∧
      (decode ⟨maxDepth, false⟩).run (.start (marked blob stop.position)) =
        .ok method ⟨stop.position, ElementType.sentinelByte :: stop.ahead⟩ := by
  obtain ⟨head, bytes, hhead, hspelled, rfl, hstop⟩ := exists_isHead_of_decode h hnone
  obtain ⟨header, result, params⟩ := method
  obtain ⟨_, rest⟩ := stop
  obtain rfl : _ = head.length + bytes.length := hstop
  have hheader : { header with sentinel := none } = header := by rw [← hnone]
  dsimp only at hhead hspelled ⊢
  obtain ⟨offset, hlocates, hoffset⟩ := hhead.exists_locates hspelled rest
  refine ⟨offset, ⟨hoffset, fun i hi => hlocates.lt_succ hspelled hi,
    hlocates _ _ _ (List.append_nil bytes).symm hspelled⟩, fun i hi => ?_, ?_⟩
  · split
    next hadmits =>
      have hadmits := Convention.admitsVarArgs_eq_true_iff.2 hadmits
      refine ⟨?_, fun j hj hij => ?_⟩
      · obtain ⟨before, behind, first, second, rfl, rfl, rfl, hbefore, hbehind⟩ :=
          hspelled.exists_cut (Nat.le_of_lt hi)
        rw [List.length_append] at hi hhead
        have hnonempty : behind ≠ [] := List.length_pos_iff.1 (by omega)
        rw [hlocates _ _ _ rfl hbefore, List.append_assoc, marked_append_append rfl,
          hhead.run_decode_mark_of_spelled hadmits hnonempty hbefore hbehind]
        congr 2
        rw [List.length_append]
        omega
      · -- the place of the second mark counts the first one
        obtain ⟨before, between, after, first, second, third, rfl, rfl, rfl, rfl, hbefore, hbetween,
          hafter⟩ := hspelled.exists_cut_cut hij (Nat.le_of_lt hj)
        rw [List.length_append, List.length_append] at hhead hj
        rw [hlocates.add_length hbefore hbetween, hlocates _ _ _ rfl hbefore, Nat.add_right_comm,
          List.append_assoc, List.append_assoc, marked_marked_append,
          hhead.run_decode_mark_mark hadmits (by omega) hbefore hbetween,
          ← List.append_assoc first second, drop_append_append]
        rw [List.length_append]
        omega
    next hadmits =>
      have hadmits : header.convention.admitsVarArgs = false :=
        Bool.eq_false_iff.2 (mt Convention.admitsVarArgs_eq_true_iff.1 hadmits)
      obtain ⟨before, behind, first, second, rfl, rfl, rfl, hbefore, hbehind⟩ :=
        hspelled.exists_cut (Nat.le_of_lt hi)
      rw [List.length_append] at hi hhead
      rw [hlocates _ _ _ rfl hbefore, List.append_assoc, marked_append_append rfl,
        drop_append_append rfl, hhead.run_decode_unexpected hadmits (by omega) hbefore]
  · rw [marked_append_append rfl, hhead.run_decode_of_spelled hspelled, hheader]

/-- The second parameter is a pointer to a method that has a mark of its own. -/
theorem decode_marked_pointer :
    ∃ method, (decode ⟨100, false⟩).run
        (.start [0x05, 0x02, 0x01, 0x08, 0x1B, 0x05, 0x01, 0x01, 0x41, 0x08]) =
      .ok method ⟨10, []⟩ ∧ method.header.sentinel = none ∧ method.params.length = 2 ∧
    ∃ offset : Nat → Nat, offset 1 = 4 ∧
      (decode ⟨100, false⟩).run
          (.start (marked [0x05, 0x02, 0x01, 0x08, 0x1B, 0x05, 0x01, 0x01, 0x41, 0x08]
            (offset 1))) =
        .ok { method with header := { method.header with sentinel := some 1 } } ⟨11, []⟩ := by
  have hdecode : (decode ⟨100, false⟩).run
      (.start [0x05, 0x02, 0x01, 0x08, 0x1B, 0x05, 0x01, 0x01, 0x41, 0x08]) = .ok _ _ := rfl
  refine ⟨_, hdecode, rfl, rfl, ?_⟩
  obtain ⟨offset, ⟨hoffset, -, -⟩, hmark, -⟩ := decode_marked hdecode rfl
  exact ⟨offset, (Option.some.inj (hoffset 1 (by decide))).symm, (hmark 1 (by decide)).1⟩

end MethodSig

end SignatureBlob
