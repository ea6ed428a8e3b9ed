import SignatureBlob.Proofs.IntegerCodec
import SignatureBlob.Proofs.SliceCursor

/-!
# The invariant of a cursor

Requests are made to a cursor one after the other, and a failure does not end the session. Between
two requests the cursor stands in the blob, behind the bytes that the requests met so far went over.
This holds because a request that fails leaves the cursor where it was, also when it was a
transaction that had gone some way, and because one that is met is answered by the bytes that it
went over.

Main definitions: `Meets` (what answers a request) and `SliceRead.session`. Main statement:
`SliceRead.session_keeps`.
-/

namespace SignatureBlob

open Decoder CompressedInt

/-! ## Requests that are met -/

mutual

/-- At a place of a blob an operation has an answer, and goes over bytes for it. -/
inductive Meets (blob : List UInt8) : Nat → Operation → Answer → List UInt8 → Prop
  | length {place : Nat} : Meets blob place .length (.number blob.length) []
  | isEmpty {place : Nat} : Meets blob place .isEmpty (.flag blob.isEmpty) []
  | hasMore {place : Nat} : Meets blob place .hasMore (.flag (decide (place < blob.length))) []
  | position {place : Nat} : Meets blob place .position (.number place) []
  | remaining {place : Nat} : Meets blob place .remaining (.number (blob.length - place : Nat)) []
  | peek {place : Nat} {next : UInt8} (ahead : blob[place]? = some next) :
      Meets blob place .peek (.number next.toNat) []
  | byte {place : Nat} {next : UInt8} : Meets blob place .byte (.number next.toNat) [next]
  | skip {place : Nat} {next : UInt8} : Meets blob place .skip .done [next]
  | ensure {place count : Nat} (ahead : place + count ≤ blob.length) :
      Meets blob place (.ensure count) .done []
  | bytes {place : Nat} {bytes : List UInt8} :
      Meets blob place (.bytes bytes.length) (.bytes bytes) bytes
  | unsigned {place value : Nat} {bytes : List UInt8}
      (coded : DerivesUnsigned .wideEnough value bytes) :
      Meets blob place .unsigned (.number value) bytes
  | null {place : Nat} : Meets blob place .unsignedOrNull .null [nullMarker]
  | number {place value : Nat} {bytes : List UInt8}
      (coded : DerivesUnsigned .wideEnough value bytes) :
      Meets blob place .unsignedOrNull (.number value) bytes
  | signed {place : Nat} {value : Int} {bytes : List UInt8}
      (coded : DerivesSigned .wideEnough value bytes) :
      Meets blob place .signed (.number value) bytes
  | token {place : Nat} {token : Token} {bytes : List UInt8}
      (coded : CodedToken.Derives .wideEnough token bytes) :
      Meets blob place .token (.token token) bytes
  | transaction {place : Nat} {operations : List Operation} {answers : List Answer}
      {bytes : List UInt8} (each : MeetsEach blob place operations answers bytes) :
      Meets blob place (.transaction operations) (.each answers) bytes

/-- Operations are met one after the other, each at the place where the one before it stops. -/
inductive MeetsEach (blob : List UInt8) :
    Nat → List Operation → List Answer → List UInt8 → Prop
  | nil {place : Nat} : MeetsEach blob place [] [] []
  | cons {place : Nat} {operation : Operation} {operations : List Operation} {answer : Answer}
      {answers : List Answer} {front back : List UInt8}
      (first : Meets blob place operation answer front)
      (rest : MeetsEach blob (place + front.length) operations answers back) :
      MeetsEach blob place (operation :: operations) (answer :: answers) (front ++ back)

end

/-! ## Answers of an operation -/

namespace Decoder

variable {α β : Type}

/-- What is made of a value is read where the value is. -/
theorem exists_of_run_map {decoder : Decoder α} {f : α → β} {start stop : Cursor} {result : β}
    (h : (decoder >>= fun value => pure (f value)).run start = .ok result stop) :
    ∃ value, decoder.run start = .ok value stop ∧ result = f value := by
  obtain ⟨value, middle, hrun, hpure⟩ := run_bind_eq_ok_iff.1 h
  obtain ⟨rfl, rfl⟩ := Outcome.ok.inj hpure
  exact ⟨value, hrun, rfl⟩

/-- A byte that is looked at stays ahead. -/
theorem of_run_peek_eq_ok {start stop : Cursor} {next : UInt8}
    (h : peek.run start = .ok next stop) : stop = start ∧ start.ahead.head? = some next := by
  obtain ⟨place, _ | ⟨first, ahead⟩⟩ := start
  · cases h
  · obtain ⟨rfl, rfl⟩ := Outcome.ok.inj h
    exact ⟨rfl, rfl⟩

/-- The bytes that were asked for are ahead and stay there. -/
theorem of_run_ensure_eq_ok {start stop : Cursor} {count : Nat} {answer : Unit}
    (h : (ensure count).run start = .ok answer stop) : stop = start ∧ count ≤ start.remaining := by
  obtain ⟨place, ahead⟩ := start
  by_cases hcount : count ≤ ahead.length
  · rw [run_ensure_of_le hcount] at h
    exact ⟨(Outcome.ok.inj h).2.symm, hcount⟩
  · rw [run_ensure_of_lt (Nat.lt_of_not_le hcount)] at h
    cases h

end Decoder

/-- A number is read where null is allowed, or it is the byte of null that is read. -/
theorem CompressedInt.run_decodeUnsigned?_cases (start : Cursor) :
    (∃ stop, start.Passes [nullMarker] stop ∧ decodeUnsigned?.run start = .ok none stop) ∨
      decodeUnsigned?.run start = (some <$> decodeUnsigned).run start := by
  by_cases hnull : start.ahead.head? = some nullMarker
  · obtain ⟨place, ahead⟩ := start
    obtain ⟨rest, rfl⟩ : ∃ rest, ahead = nullMarker :: rest := List.head?_eq_some_iff.1 hnull
    exact .inl ⟨⟨place + 1, rest⟩, ⟨rfl, rfl⟩, rfl⟩
  · exact .inr (by rw [run_map, run_decodeUnsigned?_of_ne hnull])

namespace Operation

variable {blob : List UInt8}

mutual

/-- An answer is what the operation has at the place, for the bytes that the cursor goes over. -/
theorem exists_meets (operation : Operation) {start stop : Cursor} {answer : Answer}
    (h : start.IsIn blob) (hrun : operation.decoder.run start = .ok answer stop) :
    ∃ bytes, Meets blob start.position operation answer bytes ∧ start.Passes bytes stop := by
  have hnothing : start.Passes [] start := Cursor.passes_nil_iff.2 rfl
  cases operation with
  | length =>
    obtain ⟨rfl, rfl⟩ := Outcome.ok.inj hrun
    exact ⟨[], by rw [h.length_eq]; exact .length, hnothing⟩
  | isEmpty =>
    obtain ⟨rfl, rfl⟩ := Outcome.ok.inj hrun
    exact ⟨[], by rw [h.isEmpty_eq]; exact .isEmpty, hnothing⟩
  | hasMore =>
    obtain ⟨rfl, rfl⟩ := Outcome.ok.inj hrun
    exact ⟨[], by rw [h.hasMore_eq]; exact .hasMore, hnothing⟩
  | position =>
    obtain ⟨rfl, rfl⟩ := Outcome.ok.inj hrun
    exact ⟨[], .position, hnothing⟩
  | remaining =>
    obtain ⟨rfl, rfl⟩ := Outcome.ok.inj hrun
    exact ⟨[], by rw [h.remaining_eq]; exact .remaining, hnothing⟩
  | peek =>
    obtain ⟨next, hpeek, rfl⟩ := exists_of_run_map hrun
    obtain ⟨rfl, hnext⟩ := of_run_peek_eq_ok hpeek
    exact ⟨[], .peek (h.head?_ahead.symm.trans hnext), hnothing⟩
  | byte =>
    obtain ⟨next, hbyte, rfl⟩ := exists_of_run_map hrun
    obtain ⟨_, rfl, hpasses⟩ := (recognizes_byte _ _ _).1 hbyte
    exact ⟨[next], .byte, hpasses⟩
  | skip =>
    obtain ⟨_, hskip, rfl⟩ := exists_of_run_map hrun
    obtain ⟨_, ⟨next, rfl⟩, hpasses⟩ := (recognizes_skip _ _ _).1 hskip
    exact ⟨[next], .skip, hpasses⟩
  | ensure count =>
    obtain ⟨_, hensure, rfl⟩ := exists_of_run_map hrun
    obtain ⟨rfl, hcount⟩ := of_run_ensure_eq_ok hensure
    have hplace := h.1
    rw [h.remaining_eq] at hcount
    exact ⟨[], .ensure (by omega), hnothing⟩
  | bytes count =>
    obtain ⟨bytes, hbytes, rfl⟩ := exists_of_run_map hrun
    obtain ⟨_, ⟨rfl, rfl⟩, hpasses⟩ := (recognizes_bytes count _ _ _).1 hbytes
    exact ⟨_, .bytes, hpasses⟩
  | unsigned =>
    obtain ⟨value, hvalue, rfl⟩ := exists_of_run_map hrun
    obtain ⟨bytes, hcoded, hpasses⟩ := (recognizes_decodeUnsigned _ _ _).1 hvalue
    exact ⟨bytes, .unsigned hcoded, hpasses⟩
  | unsignedOrNull =>
    obtain ⟨value, hvalue, rfl⟩ := exists_of_run_map hrun
    rcases run_decodeUnsigned?_cases start with ⟨place, hpasses, hnull⟩ | hnumber
    · obtain ⟨rfl, rfl⟩ := Outcome.ok.inj (hnull.symm.trans hvalue)
      exact ⟨_, .null, hpasses⟩
    · rw [hnumber] at hvalue
      obtain ⟨number, hunsigned, rfl⟩ := exists_of_run_map hvalue
      obtain ⟨bytes, hcoded, hpasses⟩ := (recognizes_decodeUnsigned _ _ _).1 hunsigned
      exact ⟨bytes, .number hcoded, hpasses⟩
  | signed =>
    obtain ⟨value, hvalue, rfl⟩ := exists_of_run_map hrun
    obtain ⟨bytes, hcoded, hpasses⟩ := (recognizes_decodeSigned _ _ _).1 hvalue
    exact ⟨bytes, .signed hcoded, hpasses⟩
  | token =>
    obtain ⟨token, htoken, rfl⟩ := exists_of_run_map hrun
    obtain ⟨bytes, hcoded, hpasses⟩ := (CodedToken.recognizes_decode _ _ _).1 htoken
    exact ⟨bytes, .token hcoded, hpasses⟩
  | transaction operations =>
    obtain ⟨answers, htransaction, rfl⟩ := exists_of_run_map hrun
    obtain ⟨bytes, heach, hpasses⟩ :=
      exists_meetsEach operations h (run_transaction_eq_ok_iff.1 htransaction)
    exact ⟨bytes, .transaction heach, hpasses⟩

/-- So are the answers of operations one after the other. -/
theorem exists_meetsEach (operations : List Operation) {start stop : Cursor}
    {answers : List Answer} (h : start.IsIn blob)
    (hrun : (ByteReader.meetEach operations : Decoder _).run start = .ok answers stop) :
    ∃ bytes, MeetsEach blob start.position operations answers bytes ∧ start.Passes bytes stop := by
  cases operations with
  | nil =>
    obtain ⟨rfl, rfl⟩ := Outcome.ok.inj hrun
    exact ⟨[], .nil, Cursor.passes_nil_iff.2 rfl⟩
  | cons operation operations =>
    obtain ⟨answer, middle, hfirst, hrest⟩ := run_bind_eq_ok_iff.1 hrun
    obtain ⟨answers, hlast, rfl⟩ := exists_of_run_map hrest
    obtain ⟨front, hfront, hpasses⟩ := exists_meets operation h hfirst
    obtain ⟨back, hback, hpasses'⟩ := exists_meetsEach operations (h.passes hpasses).1 hlast
    rw [hpasses.2] at hback
    exact ⟨front ++ back, .cons hfront hback, hpasses.trans hpasses'⟩

end

end Operation

/-! ## Failures of an operation -/

namespace Decoder

variable {α : Type}

/-- A question never fails. -/
theorem atomic_ask (question : Cursor → α) : (ask question).Atomic :=
  fun _ _ _ hrun => nomatch hrun

/-- A look does not move. -/
theorem atomic_peek : peek.Atomic := by
  rintro ⟨place, _ | ⟨next, ahead⟩⟩ error stop hrun
  · exact (Outcome.error.inj hrun).2.symm
  · cases hrun

/-- Where no byte is ahead none is taken. -/
theorem atomic_byte : byte.Atomic := by
  rintro ⟨place, _ | ⟨next, ahead⟩⟩ error stop hrun
  · exact (Outcome.error.inj hrun).2.symm
  · cases hrun

/-- To ask for bytes does not move. -/
theorem atomic_ensure (count : Nat) : (ensure count).Atomic := by
  rintro ⟨place, ahead⟩ error stop hrun
  by_cases hcount : count ≤ ahead.length
  · rw [run_ensure_of_le hcount] at hrun
    cases hrun
  · rw [run_ensure_of_lt (Nat.lt_of_not_le hcount)] at hrun
    exact (Outcome.error.inj hrun).2.symm

/-- Whatever was done in it, a transaction that fails has not moved. -/
theorem atomic_transaction (decoder : Decoder α) : decoder.transaction.Atomic :=
  fun _ _ _ hrun => (run_transaction_eq_error_iff.1 hrun).1

end Decoder

/-- A number or null is read whole or not at all. -/
theorem CompressedInt.atomic_decodeUnsigned? : decodeUnsigned?.Atomic := by
  intro start error stop hrun
  rcases run_decodeUnsigned?_cases start with ⟨place, -, hnull⟩ | hnumber
  · cases hnull.symm.trans hrun
  · rw [hnumber, run_map_eq_error_iff] at hrun
    exact atomic_decodeUnsigned _ _ _ hrun

/-- A number that is no token is put back. -/
theorem CodedToken.atomic_decode : CodedToken.decode.Atomic := by
  rw [decode_eq_transaction]
  exact atomic_transaction _

/-- An operation that fails leaves the cursor where it was. -/
theorem Operation.atomic_decoder (operation : Operation) : operation.decoder.Atomic := by
  cases operation with
  | length | isEmpty | hasMore | position | remaining => exact atomic_map (atomic_ask _) _
  | peek => exact atomic_map atomic_peek _
  | byte => exact atomic_map atomic_byte _
  | skip => exact atomic_map (atomic_map atomic_byte _) _
  | ensure count => exact atomic_map (atomic_ensure count) _
  | bytes count => exact atomic_map (atomic_bytes count) _
  | unsigned => exact atomic_map atomic_decodeUnsigned _
  | unsignedOrNull => exact atomic_map atomic_decodeUnsigned? _
  | signed => exact atomic_map atomic_decodeSigned _
  | token => exact atomic_map CodedToken.atomic_decode _
  | transaction operations => exact atomic_map (atomic_transaction _) _

/-! ## Sessions -/

/-- A request, its result, and the places before and behind it. -/
structure Exchange where
  operation : Operation
  start : Nat
  result : Except Error Answer
  stop : Nat

namespace Exchange

/-- Whether the request was met. -/
def succeeds (exchange : Exchange) : Bool := exchange.result.isOk

/-- The bytes of the blob between the two places. -/
def consumed (blob : List UInt8) (exchange : Exchange) : List UInt8 :=
  (blob.take exchange.stop).drop exchange.start

/-- The bytes for which answers were given, in turn. -/
def consumedByMet (blob : List UInt8) (exchanges : List Exchange) : List UInt8 :=
  (exchanges.filter succeeds).flatMap (consumed blob)

/-- The bytes of the first answer stand in front of those of the others. -/
theorem consumedByMet_cons (blob : List UInt8) (exchange : Exchange) (exchanges : List Exchange) :
    consumedByMet blob (exchange :: exchanges) =
      consumedByMet blob [exchange] ++ consumedByMet blob exchanges := by
  rw [← List.singleton_append, consumedByMet, List.filter_append, List.flatMap_append]
  rfl

/-- An operation at a place, and its outcome. -/
def ofOutcome (operation : Operation) (start : Cursor) (outcome : Outcome Answer) : Exchange :=
  ⟨operation, start.position, outcome.result, outcome.stop.position⟩

/-- The cursor stays in the blob. An answer is what the operation has at the place, for the bytes
that the cursor goes over, and on failure the cursor does not move. -/
structure Sound (blob : List UInt8) (exchange : Exchange) : Prop where
  inside : exchange.stop ≤ blob.length
  forward : exchange.start ≤ exchange.stop
  met : ∀ answer, exchange.result = .ok answer →
    Meets blob exchange.start exchange.operation answer (exchange.consumed blob)
  failed : ∀ error, exchange.result = .error error → exchange.stop = exchange.start

end Exchange

namespace SliceRead

/-- Carry out requests one after the other, going on after failures but not after a crash. -/
def session : List Operation → SliceCursor → Option (List Exchange × SliceCursor)
  | [], cursor => some ([], cursor)
  | operation :: operations, cursor => do
    let (result, after) ← (ByteReader.meet operation : SliceRead Answer) cursor
    let (exchanges, last) ← session operations after
    return (⟨operation, cursor.position, result, after.position⟩ :: exchanges, last)

variable {blob : List UInt8} {start stop : Cursor}

/-- A request is carried out before the others, which begin where it stopped. -/
theorem session_cons {operation : Operation} {operations : List Operation}
    {cursor after last : SliceCursor} {result : Except Error Answer} {exchanges : List Exchange}
    (hmeet : (ByteReader.meet operation : SliceRead Answer) cursor = some (result, after))
    (hsession : session operations after = some (exchanges, last)) :
    session (operation :: operations) cursor =
      some (⟨operation, cursor.position, result, after.position⟩ :: exchanges, last) := by
  simp only [session, hmeet, hsession, Option.bind_eq_bind, Option.bind_some, pure]

/-- One request from a place in the blob. The cursor goes over the bytes of the answer; on failure
it goes over none. -/
theorem exchange_spec (operation : Operation) {outcome : Outcome Answer} (h : start.IsIn blob)
    (hrun : operation.decoder.run start = outcome) :
    (Exchange.ofOutcome operation start outcome).Sound blob ∧
      start.Passes (Exchange.consumedByMet blob [.ofOutcome operation start outcome])
        outcome.stop := by
  cases outcome with
  | ok answer stop =>
    obtain ⟨bytes, hmeets, hpasses⟩ := operation.exists_meets h hrun
    obtain ⟨hin, hforward⟩ := h.passes hpasses
    obtain rfl := h.drop_take_stop hpasses
    refine ⟨⟨hin.1, hforward, fun _ hanswer => ?_, nofun⟩, ?_⟩
    · obtain rfl := Except.ok.inj hanswer
      exact hmeets
    · rwa [← List.append_nil (List.drop _ _)] at hpasses
  | error error stop =>
    -- no bytes are counted for a failure, and none were gone over
    obtain rfl := operation.atomic_decoder _ _ _ hrun
    exact ⟨⟨h.1, Nat.le_refl _, nofun, fun _ _ => rfl⟩, Cursor.passes_nil_iff.2 rfl⟩

/-- Requests from a place in the blob. The cursor goes over the bytes of the answers. -/
theorem session_spec (hblob : blob.length < addressLimit) (operations : List Operation)
    (h : start.IsIn blob) :
    ∃ exchanges last, session operations ⟨blob, start.position⟩ =
        some (exchanges, ⟨blob, last.position⟩) ∧
      exchanges.map Exchange.operation = operations ∧
      exchanges.map (fun exchange => (exchange.result, exchange.stop)) =
        (Operation.runAll operations start).map
          (fun outcome => (outcome.result, outcome.stop.position)) ∧
      exchanges.map Exchange.start ++ [last.position] =
        start.position :: exchanges.map Exchange.stop ∧
      (∀ exchange ∈ exchanges, exchange.Sound blob) ∧
      start.Passes (Exchange.consumedByMet blob exchanges) last := by
  -- the cursor stays in the blob, which is what the next request needs
  induction operations generalizing start with
  | nil => exact ⟨[], start, rfl, rfl, rfl, rfl, nofun, Cursor.passes_nil_iff.2 rfl⟩
  | cons operation operations ih =>
    obtain ⟨hmeet, hin⟩ := simulates_meet hblob operation start h
    obtain ⟨hfirst, hpasses⟩ := exchange_spec operation h rfl
    obtain ⟨exchanges, last, hsession, hoperations, houtcomes, hplaces, hsound, hpasses'⟩ := ih hin
    refine ⟨_, last, session_cons hmeet hsession, ?_, ?_, ?_,
      List.forall_mem_cons.2 ⟨hfirst, hsound⟩, ?_⟩
    · rw [List.map_cons, hoperations]
    · rw [List.map_cons, houtcomes]
      rfl
    · rw [List.map_cons, List.cons_append, hplaces]
      rfl
    · rw [Exchange.consumedByMet_cons]
      exact hpasses.trans hpasses'

/-- Whatever is asked of a cursor in a blob that can be addressed, and whatever failed before,
nothing crashes: no difference is below zero, no sum is beyond the addresses, and the cursor stays
in the blob. Each request begins where the one before it stopped. One that fails leaves the cursor
there, also when it was a transaction that had gone some way. One that is met is answered by the
bytes that it went over, and in turn these are exactly the bytes behind the cursor. -/
theorem session_keeps {blob : List UInt8} (hblob : blob.length < addressLimit)
    (operations : List Operation) :
    ∃ exchanges place, session operations (.start blob) = some (exchanges, ⟨blob, place⟩) ∧
      exchanges.map Exchange.operation = operations ∧
      exchanges.map (fun exchange => (exchange.result, exchange.stop)) =
        (Operation.runAll operations (.start blob)).map
          (fun outcome => (outcome.result, outcome.stop.position)) ∧
      exchanges.map Exchange.start ++ [place] = 0 :: exchanges.map Exchange.stop ∧
      (∀ exchange ∈ exchanges, exchange.Sound blob) ∧
      place ≤ blob.length ∧ Exchange.consumedByMet blob exchanges = blob.take place := by
  have hstart : (Cursor.start blob).IsIn blob := ⟨Nat.zero_le _, rfl⟩
  obtain ⟨exchanges, last, hsession, hoperations, houtcomes, hplaces, hsound, hpasses⟩ :=
    session_spec hblob operations hstart
  obtain ⟨hlast, hconsumed, -⟩ := Cursor.passes_start_iff.1 hpasses
  exact ⟨exchanges, last.position, hsession, hoperations, houtcomes, hplaces, hsound, hlast,
    hconsumed⟩

/-- A transaction in a transaction fails behind two bytes, and more bytes are asked for than there
are. Then one byte is read, and two more in transactions. -/
theorem session_keeps_nested :
    ∃ exchanges, session
        [.transaction [.byte, .transaction [.unsigned, .unsigned]], .bytes 0xFFFFFFFFFFFFFFFF,
          .unsigned, .transaction [.byte, .transaction [.unsignedOrNull]]]
        (.start [0x20, 0x01, 0xFF, 0x06]) = some (exchanges, ⟨[0x20, 0x01, 0xFF, 0x06], 3⟩) ∧
      exchanges.map Exchange.stop = [0, 0, 1, 3] ∧
      (∀ exchange ∈ exchanges, exchange.Sound [0x20, 0x01, 0xFF, 0x06]) ∧
      Exchange.consumedByMet [0x20, 0x01, 0xFF, 0x06] exchanges = [0x20, 0x01, 0xFF] := by
  obtain ⟨exchanges, place, hsession, -, -, -, hsound, -, hconsumed⟩ :=
    @session_keeps [0x20, 0x01, 0xFF, 0x06] (by decide)
      [.transaction [.byte, .transaction [.unsigned, .unsigned]], .bytes 0xFFFFFFFFFFFFFFFF,
        .unsigned, .transaction [.byte, .transaction [.unsignedOrNull]]]
  have hplaces := congrArg (Option.map fun last : List Exchange × SliceCursor =>
    (last.1.map Exchange.stop, last.2.position)) hsession
  obtain ⟨hstops, rfl⟩ : [0, 0, 1, 3] = exchanges.map Exchange.stop ∧ 3 = place :=
    Prod.mk.inj (Option.some.inj hplaces)
  exact ⟨exchanges, hsession, hstops.symm, hsound, hconsumed⟩

end SliceRead

end SignatureBlob
