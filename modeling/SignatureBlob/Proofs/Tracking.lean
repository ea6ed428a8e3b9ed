import SignatureBlob.Proofs.Congruence
import SignatureBlob.Proofs.RoundTrip

/-!
# Reading what is written

A reader tracks what is written for a value: where nothing is wrong with the value it reads it back,
and where the writing ended early it goes over all that was written and then lacks one byte. For
the next thing to be read begins with a byte in every case, and what is wrong with a value is found
out by the writer before anything of it is written.

This is kept by the ways to put readers and writers together, and so it holds of types.

Main definition: `Decoder.Tracks`. Main statement: `TypeSig.tracks_decodeWithin`.
-/

namespace SignatureBlob

open Grammar CompressedInt

/-- At least a byte is written, or nothing and there is a fault. -/
def Emission.Atomic (emission : Emission) : Prop :=
  (∃ lead rest, emission = .ofBytes (lead :: rest)) ∨ ∃ fault, emission = ⟨[], some fault⟩

/-- What is written whole has a byte. -/
theorem Emission.Atomic.ne_nil {emission : Emission} (h : emission.Atomic)
    (hnone : emission.fault = none) : emission.bytes ≠ [] := by
  rcases h with ⟨lead, rest, rfl⟩ | ⟨fault, rfl⟩
  · exact List.cons_ne_nil lead rest
  · cases hnone

/-- What is not written whole has none. -/
theorem Emission.Atomic.eq_nil {emission : Emission} (h : emission.Atomic)
    (hsome : emission.fault ≠ none) : emission.bytes = [] := by
  rcases h with ⟨lead, rest, rfl⟩ | ⟨fault, rfl⟩
  · exact absurd rfl hsome
  · rfl

namespace Decoder

variable {α β : Type}

/-! ## Readers that run out of bytes -/

/-- The decoder goes over the bytes and lacks one byte at their end. -/
def Stalls (decoder : Decoder α) (bytes : List UInt8) : Prop :=
  ∀ place, decoder.run ⟨place, bytes⟩ =
    .error (.truncated (place + bytes.length) 1 0) ⟨place + bytes.length, []⟩

/-- The decoder reads the value back from what is written for it, and stalls on what is written
before a fault. -/
structure Tracks (decoder : Decoder α) (emission : Emission) (value : α) : Prop where
  reads : emission.fault = none → ∀ place rest,
    decoder.run ⟨place, emission.bytes ++ rest⟩ =
      .ok value ⟨place + emission.bytes.length, rest⟩
  stalls : emission.fault ≠ none → decoder.Stalls emission.bytes

variable {decoder first : Decoder α} {next : α → Decoder β} {emission other : Emission} {value : α}
  {result : β} {bytes : List UInt8}

/-- A sequence stalls where its first part does. -/
theorem stalls_bind (h : first.Stalls bytes) : (first >>= next).Stalls bytes :=
  fun place => run_bind_error (h place) next

/-- To ask for the place needs no byte. -/
theorem stalls_position {next : Nat → Decoder β} (h : ∀ offset, (next offset).Stalls bytes) :
    (position >>= next).Stalls bytes :=
  fun place => h place place

/-- A look at the end lacks the byte. -/
theorem stalls_peek : peek.Stalls [] := fun _ => rfl

/-- So does a byte that is to be taken. -/
theorem stalls_byte : byte.Stalls [] := fun _ => rfl

/-- Whatever is to be located is looked at first. -/
theorem stalls_located (decoder : Decoder α) : decoder.located.Stalls [] := fun _ => rfl

/-! ## The ways to put readers together -/

/-- A value that is returned has nothing written for it. -/
theorem tracks_pure (value : α) : (pure value : Decoder α).Tracks .empty value :=
  ⟨fun _ _ _ => rfl, fun h => absurd rfl h⟩

/-- Sequences are tracked part by part. -/
theorem tracks_bind (hfirst : first.Tracks emission value)
    (hnext : (next value).Tracks other result) :
    (first >>= next).Tracks (emission ++ other) result := by
  cases hfault : emission.fault with
  | some fault =>
    rw [Emission.append_of_some hfault]
    have hsome : emission.fault ≠ none := by
      rw [hfault]
      exact nofun
    exact ⟨fun hnone => absurd hnone hsome, fun _ => stalls_bind (hfirst.stalls hsome)⟩
  | none =>
    rw [Emission.append_of_none hfault]
    constructor
    · intro hnone place rest
      rw [List.append_assoc, run_bind_ok (hfirst.reads hfault place _), hnext.reads hnone,
        List.length_append, Nat.add_assoc]
    · intro hsome place
      rw [run_bind_ok (hfirst.reads hfault place _), hnext.stalls hsome, List.length_append,
        Nat.add_assoc]

/-- What is made of a value is tracked with it. -/
theorem tracks_map (h : decoder.Tracks emission value) (f : α → β) :
    (decoder >>= fun value => pure (f value)).Tracks emission (f value) := by
  have hbind : (decoder >>= fun value => pure (f value)).Tracks (emission ++ .empty) (f value) :=
    tracks_bind h (tracks_pure (f value))
  rwa [Emission.append_empty] at hbind

/-- A byte is read as it was written. -/
theorem tracks_byte (value : UInt8) : byte.Tracks (.byte value) value :=
  ⟨fun _ _ _ => rfl, fun h => absurd rfl h⟩

/-- What follows the question for the place is tracked by itself. -/
theorem tracks_position {next : Nat → Decoder β} (h : ∀ offset, (next offset).Tracks other result) :
    (position >>= next).Tracks other result :=
  ⟨fun hnone place rest => (h place).reads hnone place rest,
    fun hsome place => (h place).stalls hsome place⟩

/-- A look at the first byte of what is written. -/
theorem tracks_peek {next : UInt8 → Decoder β}
    (h : ∀ lead, other.bytes.head? = some lead → (next lead).Tracks other result)
    (hne : other.fault = none → other.bytes ≠ []) : (peek >>= next).Tracks other result := by
  obtain ⟨bytes, fault⟩ := other
  cases bytes with
  | nil =>
    refine ⟨fun hnone => absurd rfl (hne hnone), fun _ => stalls_bind stalls_peek⟩
  | cons lead bytes =>
    have hlead := h lead rfl
    exact ⟨fun hnone place rest => hlead.reads hnone place rest,
      fun hsome place => hlead.stalls hsome place⟩

/-- A decoder whose value is judged by its place and its first byte too. -/
theorem tracks_located_bind {next : Located α → Decoder β}
    (hdecoder : decoder.Tracks emission value) (hne : emission.fault = none → emission.bytes ≠ [])
    (h : ∀ offset lead, (next ⟨offset, lead, value⟩).Tracks other result) :
    (decoder.located >>= next).Tracks (emission ++ other) result := by
  rw [located_bind_eq]
  refine tracks_position fun offset => tracks_peek
    (fun lead _ => tracks_bind hdecoder (h offset lead)) ?_
  intro hnone
  cases hfault : emission.fault with
  | some fault =>
    rw [Emission.append_of_some hfault, hfault] at hnone
    cases hnone
  | none =>
    rw [Emission.append_of_none hfault]
    exact List.append_ne_nil_of_left_ne_nil (hne hfault) _

/-- A check that the writer makes before it writes anything of the value. The reader, which checks
what it has read, has nothing to read there. -/
theorem tracks_require {condition : Bool} {observed : UInt8} {defect : Defect}
    (hstalls : decoder.Stalls []) (h : condition = true → decoder.Tracks emission value) :
    decoder.Tracks (.require condition observed defect ++ emission) value := by
  cases condition with
  | true => exact h rfl
  | false => exact ⟨nofun, fun _ => hstalls⟩

/-- A value that is written whole or not at all. -/
theorem tracks_of_recognizes {grammar : α → List UInt8 → Prop} (h : decoder.Recognizes grammar)
    (hstalls : decoder.Stalls []) (hatomic : emission.Atomic)
    (hgrammar : ∀ bytes, emission = .ofBytes bytes → grammar value bytes) :
    decoder.Tracks emission value := by
  constructor
  · intro hnone place rest
    have hbytes : emission = .ofBytes emission.bytes := Emission.ext rfl hnone
    exact (h _ _ _).2 ⟨_, hgrammar _ hbytes, rfl, rfl⟩
  · intro hsome
    rw [hatomic.eq_nil hsome]
    exact hstalls

/-- A list is tracked if its members are. -/
theorem tracks_list {item : Decoder α} {emit : α → Emission} {values : List α}
    (h : ∀ value ∈ values, item.Tracks (emit value) value) :
    (item.list values.length).Tracks (.concat (values.map emit)) values := by
  induction values with
  | nil => exact tracks_pure []
  | cons value values ih =>
    rw [List.forall_mem_cons] at h
    exact tracks_bind h.1 (tracks_map (ih h.2) (value :: ·))

end Decoder

open Decoder

/-! ## Integers and tokens -/

namespace CompressedInt

/-- At the end of a blob an unsigned number lacks its first byte. -/
theorem stalls_decodeUnsigned : decodeUnsigned.Stalls [] :=
  stalls_position fun _ => stalls_bind stalls_peek

/-- So does a signed number. -/
theorem stalls_decodeSigned : decodeSigned.Stalls [] := stalls_bind stalls_peek

/-- Every form has a byte. -/
theorem atomic_encode (form : Form) (payload : Nat) :
    (Emission.ofBytes (form.encode payload)).Atomic := by
  obtain ⟨lead, rest, hcons⟩ := List.exists_cons_of_ne_nil (form.encode_ne_nil payload)
  exact .inl ⟨lead, rest, congrArg Emission.ofBytes hcons⟩

/-- An unsigned number is written whole or not at all. -/
theorem atomic_emitUnsigned (value : Nat) : (emitUnsigned value).Atomic := by
  rw [emitUnsigned_eq]
  cases Form.forUnsigned? value with
  | some form => exact atomic_encode form _
  | none => exact .inr ⟨_, rfl⟩

/-- So is a signed number. -/
theorem atomic_emitSigned (value : Int) : (emitSigned value).Atomic := by
  rw [emitSigned_eq]
  cases Form.forSigned? value with
  | some form => exact atomic_encode form _
  | none => exact .inr ⟨_, rfl⟩

/-- So is a number of members. -/
theorem atomic_emitCount (observed : UInt8) (listed : Listed) (count : Nat) :
    (emitCount observed listed count).Atomic := by
  rw [emitCount_eq]
  by_cases hlimit : count < countLimit
  · rw [if_pos hlimit]
    exact atomic_emitUnsigned count
  · rw [if_neg hlimit]
    exact .inr ⟨_, rfl⟩

/-- Whatever the latitude, the form is wide enough. -/
theorem DerivesUnsigned.wideEnough {latitude : Latitude} {value : Nat} {bytes : List UInt8}
    (h : DerivesUnsigned latitude value bytes) : DerivesUnsigned .wideEnough value bytes := by
  obtain ⟨wide, _⟩ := h
  exact .intro wide trivial

/-- Unsigned numbers are tracked. -/
theorem tracks_decodeUnsigned (value : Nat) : decodeUnsigned.Tracks (emitUnsigned value) value :=
  tracks_of_recognizes recognizes_decodeUnsigned stalls_decodeUnsigned (atomic_emitUnsigned value)
    fun _ hbytes => (emitUnsigned_eq_ofBytes_iff.1 hbytes).wideEnough

/-- Signed numbers are tracked. -/
theorem tracks_decodeSigned (value : Int) : decodeSigned.Tracks (emitSigned value) value := by
  refine tracks_of_recognizes recognizes_decodeSigned stalls_decodeSigned
    (atomic_emitSigned value) fun _ hbytes => ?_
  obtain ⟨wide, _⟩ := emitSigned_eq_ofBytes_iff.1 hbytes
  exact .intro wide trivial

/-- A number of members is read as any unsigned number. -/
theorem tracks_decodeCount (observed : UInt8) (listed : Listed) (count : Nat) :
    decodeUnsigned.Tracks (emitCount observed listed count) count :=
  tracks_of_recognizes recognizes_decodeUnsigned stalls_decodeUnsigned
    (atomic_emitCount observed listed count)
    fun _ hbytes => (emitCount_eq_ofBytes_iff.1 hbytes).wideEnough

end CompressedInt

namespace CodedToken

/-- A token is written whole or not at all. -/
theorem atomic_emit (token : Token) : (emit token).Atomic := by
  rw [emit_eq]
  cases token.typeTable? with
  | some table => exact atomic_emitUnsigned _
  | none => exact .inr ⟨_, rfl⟩

/-- At the end of a blob a token lacks its first byte. -/
theorem stalls_decode : decode.Stalls [] := stalls_position fun _ => stalls_bind stalls_peek

/-- Tokens are tracked. -/
theorem tracks_decode (token : Token) : decode.Tracks (emit token) token := by
  refine tracks_of_recognizes recognizes_decode stalls_decode (atomic_emit token) ?_
  intro bytes hbytes
  obtain ⟨narrow, coded⟩ := emit_eq_ofBytes_iff.1 hbytes
  exact .intro narrow coded.wideEnough

end CodedToken

/-! ## Array shapes -/

namespace ArrayShape

/-- A list whose length the reader holds against the rank. -/
theorem tracks_decodeBounded {α : Type} {item : Decoder α} {emit : α → Emission} {values : List α}
    {rank : Nat} {defect : Nat → Nat → Defect} (observed : UInt8) (listed : Listed)
    (h : ∀ value ∈ values, item.Tracks (emit value) value) (hle : values.length ≤ rank) :
    (decodeBounded item rank defect).Tracks
      (emitCount observed listed values.length ++ .concat (values.map emit)) values := by
  refine tracks_located_bind (tracks_decodeCount observed listed _)
    (atomic_emitCount observed listed _).ne_nil fun offset lead => ?_
  rw [if_neg (Nat.not_lt_of_le hle)]
  exact tracks_list h

/-- Shapes of arrays are tracked. -/
theorem tracks_decode (shape : ArrayShape) : decode.Tracks shape.emit shape := by
  obtain ⟨rank, sizes, lowerBounds⟩ := shape
  have hstalls : decode.Stalls [] := stalls_bind (stalls_located _)
  rw [emit_eq]
  dsimp only
  refine tracks_require hstalls fun hrank => tracks_require hstalls fun hlengths => ?_
  rw [decide_eq_true_eq] at hrank hlengths
  refine tracks_located_bind (tracks_decodeUnsigned rank) (atomic_emitUnsigned rank).ne_nil
    fun offset lead => ?_
  have hrefused : ¬ (rank = 0 ∨ maxRank < rank) := by omega
  rw [if_neg hrefused, ← Emission.append_assoc]
  refine tracks_bind (tracks_decodeBounded _ _ (fun size _ => tracks_decodeUnsigned size)
    hlengths.1) ?_
  exact tracks_map (tracks_decodeBounded _ _ (fun bound _ => tracks_decodeSigned bound) hlengths.2)
    (ArrayShape.mk rank sizes)

end ArrayShape

/-! ## Methods -/

/-- A type is written from its element type on, whatever is wrong with it. -/
theorem TypeSig.exists_emit_append_bytes (type : TypeSig) (rest : Emission) :
    ∃ tail, (type.emit ++ rest).bytes = type.elementType.byte :: tail := by
  obtain ⟨announced, hemit⟩ := type.exists_emit_eq_announce
  rw [hemit, announce, Emission.append_assoc]
  exact ⟨(announced ++ rest).bytes, rfl⟩

namespace MethodHeader

/-- At the end of a blob a header lacks its first byte. -/
theorem stalls_decode : decode.Stalls [] := stalls_position fun _ => stalls_bind stalls_byte

/-- The header of a method is tracked, without the place of the sentinel. -/
theorem tracks_decode {header : MethodHeader}
    (hinstance : header.explicitThis = true → header.hasThis = true)
    (harity : header.generic = false → header.arity = 0) :
    decode.Tracks
      (.byte header.byte ++ (if header.generic then emitUnsigned header.arity else .empty))
      { header with sentinel := none } := by
  refine tracks_position fun offset => tracks_bind (tracks_byte header.byte) ?_
  rw [ofByte_byte hinstance]
  dsimp only
  cases hgeneric : header.generic with
  | false =>
    rw [harity hgeneric]
    exact tracks_pure _
  | true =>
    exact tracks_map (tracks_decodeUnsigned header.arity)
      fun arity => { header with generic := true, arity, sentinel := none }

end MethodHeader

namespace MethodSig

variable {convention : Convention} {index : Nat} {found : Option Nat} {inner : Decoder TypeSig}
  {β : Type} {next : Option Nat → Decoder β} {other : Emission} {result : β} {params : List TypeSig}

/-- What does not begin with the mark is behind no sentinel. -/
theorem tracks_unmarked {lead : UInt8} {tail : List UInt8} (hbytes : other.bytes = lead :: tail)
    (hlead : lead ≠ ElementType.sentinelByte) (h : (next found).Tracks other result) :
    (decodeSentinel convention index found >>= next).Tracks other result := by
  constructor
  · intro hnone place rest
    rw [hbytes, List.cons_append, run_bind_ok (run_decodeSentinel_of_ne hlead), ← List.cons_append,
      ← hbytes]
    exact h.reads hnone place rest
  · intro hsome place
    have hstalls := h.stalls hsome place
    rw [hbytes] at hstalls ⊢
    rw [run_bind_ok (run_decodeSentinel_of_ne hlead)]
    exact hstalls

/-- What begins with one mark is behind the sentinel. -/
theorem tracks_marked {lead : UInt8} {tail : List UInt8} (hbytes : other.bytes = lead :: tail)
    (hlead : lead ≠ ElementType.sentinelByte) (hadmits : convention.admitsVarArgs = true)
    (h : (next (some index)).Tracks other result) :
    (decodeSentinel convention index none >>= next).Tracks
      (.byte ElementType.sentinelByte ++ other) result := by
  have hmark : (Emission.byte ElementType.sentinelByte ++ other).bytes =
      ElementType.sentinelByte :: lead :: tail := congrArg _ hbytes
  have hlength : ∀ place, place + (ElementType.sentinelByte :: lead :: tail).length =
      place + 1 + (lead :: tail).length := by
    intro place
    simp only [List.length_cons]
    omega
  constructor
  · intro hnone place rest
    have hreads := h.reads hnone (place + 1) rest
    rw [hbytes] at hreads
    rw [hmark, hlength, List.cons_append, List.cons_append,
      run_bind_ok (run_decodeSentinel_mark hlead hadmits)]
    exact hreads
  · intro hsome place
    have hstalls := h.stalls hsome (place + 1)
    rw [hbytes] at hstalls
    rw [hmark, hlength, run_bind_ok (run_decodeSentinel_mark hlead hadmits)]
    exact hstalls

/-- Parameters behind the sentinel or of a method without one. -/
theorem tracks_decodeParams_none (h : ∀ param ∈ params, inner.Tracks param.emit param) :
    (decodeParams inner convention params.length index found).Tracks
      (MethodHeader.emitParams none (params.map TypeSig.emit)) (params, found) := by
  induction params generalizing index with
  | nil => exact tracks_pure _
  | cons param params ih =>
    rw [List.forall_mem_cons] at h
    obtain ⟨tail, hbytes⟩ := param.exists_emit_append_bytes
      (MethodHeader.emitParams none (params.map TypeSig.emit))
    refine tracks_unmarked hbytes (TypeSig.byte_ne_sentinelByte _) (tracks_bind h.1 ?_)
    exact tracks_map (ih h.2) fun rest => (param :: rest.1, rest.2)

/-- Parameters with the sentinel in front of one of them, as counted from the first. -/
theorem tracks_decodeParams_some (index : Nat) {offset : Nat}
    (hadmits : convention.admitsVarArgs = true) (hlt : offset < params.length)
    (h : ∀ param ∈ params, inner.Tracks param.emit param) :
    (decodeParams inner convention params.length index none).Tracks
      (MethodHeader.emitParams (some offset) (params.map TypeSig.emit))
      (params, some (index + offset)) := by
  induction params generalizing index offset with
  | nil => exact absurd hlt (Nat.not_lt_zero offset)
  | cons param params ih =>
    rw [List.forall_mem_cons] at h
    cases offset with
    | zero =>
      -- the mark stands here, and none may follow
      obtain ⟨tail, hbytes⟩ := param.exists_emit_append_bytes
        (MethodHeader.emitParams none (params.map TypeSig.emit))
      rw [List.map_cons, MethodHeader.emitParams, Emission.append_assoc]
      refine tracks_marked hbytes (TypeSig.byte_ne_sentinelByte _) hadmits (tracks_bind h.1 ?_)
      exact tracks_map (tracks_decodeParams_none h.2) fun rest => (param :: rest.1, rest.2)
    | succ offset =>
      obtain ⟨tail, hbytes⟩ := param.exists_emit_append_bytes
        (MethodHeader.emitParams (some offset) (params.map TypeSig.emit))
      have hrest := ih (index + 1) (Nat.lt_of_succ_lt_succ hlt) h.2
      rw [Nat.add_assoc, Nat.add_comm 1] at hrest
      rw [List.map_cons, MethodHeader.emitParams]
      refine tracks_unmarked hbytes (TypeSig.byte_ne_sentinelByte _) (tracks_bind h.1 ?_)
      exact tracks_map hrest fun rest => (param :: rest.1, rest.2)

/-- The parameters and the mark are tracked, and the mark's place is found. -/
theorem tracks_decodeParams {header : MethodHeader}
    (hfits : header.sentinelFits params.length = true)
    (h : ∀ param ∈ params, inner.Tracks param.emit param) :
    (decodeParams inner header.convention params.length 0 none).Tracks
      (MethodHeader.emitParams header.sentinel (params.map TypeSig.emit))
      (params, header.sentinel) := by
  cases hsentinel : header.sentinel with
  | none => exact tracks_decodeParams_none h
  | some offset =>
    obtain ⟨hadmits, hlt⟩ := sentinelFits_iff.1 hfits
    have hsome := tracks_decodeParams_some 0 (hadmits (by rw [hsentinel]; rfl))
      (hlt offset hsentinel) h
    rwa [Nat.zero_add] at hsome

/-- A method is tracked if its types are. -/
theorem tracks_decodeWith (header : MethodHeader) {result : TypeSig}
    (hresult : inner.Tracks result.emit result)
    (hparams : ∀ param ∈ params, inner.Tracks param.emit param) :
    (decodeWith inner).Tracks
      (header.emit result.emit (params.map TypeSig.emit)) ⟨header, result, params⟩ := by
  have hstalls : (decodeWith inner).Stalls [] := stalls_bind MethodHeader.stalls_decode
  rw [MethodHeader.emit_eq, MethodHeader.emitChecks_eq]
  simp only [Emission.append_assoc, List.length_map]
  -- the writer makes all its checks before the first byte
  refine tracks_require hstalls fun hinstance => ?_
  refine tracks_require hstalls fun harity => tracks_require hstalls fun hfits => ?_
  have hheader : MethodHeader.decode.Tracks
      (.byte header.byte ++ (if header.generic then emitUnsigned header.arity else .empty))
      { header with sentinel := none } := by
    refine MethodHeader.tracks_decode ?_ ?_
    · intro hexplicit
      simpa [hexplicit] using hinstance
    · intro hgeneric
      simpa [hgeneric] using harity
  rw [← Emission.append_assoc, decodeWith_eq]
  refine tracks_bind hheader (tracks_bind (tracks_decodeCount _ _ _) (tracks_bind hresult ?_))
  exact tracks_map (tracks_decodeParams hfits hparams)
    fun found => MethodSig.mk { header with sentinel := found.2 } result found.1

end MethodSig

/-! ## Types -/

namespace TypeSig

variable {inner : Decoder TypeSig}

/-- A type is tracked if what its element type announces is. -/
theorem tracks_announce {element : ElementType} {type : TypeSig} {rest : Emission}
    (h : (decodeBody inner element).Tracks rest type) :
    (decodeWith inner).Tracks (announce element rest) type := by
  refine tracks_position fun offset => tracks_bind (tracks_byte _) ?_
  rw [ElementType.ofByte?_byte]
  exact h

/-- The byte that announces a generic type as a class or a value type is looked for first. -/
theorem stalls_decodeBaseMarker : decodeBaseMarker.Stalls [] :=
  stalls_position fun _ => stalls_bind stalls_peek

/-- The byte that tells a class from a value type is tracked. -/
theorem tracks_decodeBaseMarker (isValueType : Bool) :
    decodeBaseMarker.Tracks
      (.byte (if isValueType then ElementType.valueType else ElementType.classType).byte)
      isValueType := by
  cases isValueType <;> exact ⟨fun _ _ _ => rfl, fun h => absurd rfl h⟩

/-- A list of types is tracked if it is not empty and its types are. -/
theorem tracks_decodeNonempty {types : List TypeSig} {defect : Defect} (observed : UInt8)
    (listed : Listed) (hne : types ≠ []) (h : ∀ type ∈ types, inner.Tracks type.emit type) :
    (decodeNonempty inner defect).Tracks
      (emitCount observed listed types.length ++ .concat (types.map emit)) types := by
  refine tracks_located_bind (tracks_decodeCount observed listed _)
    (atomic_emitCount observed listed _).ne_nil fun offset lead => ?_
  rw [if_neg (mt List.length_eq_zero_iff.1 hne)]
  exact tracks_list h

/-- A type is tracked if the types in it are. -/
theorem tracks_of_children {type : TypeSig}
    (h : ∀ child ∈ type.children, inner.Tracks child.emit child) :
    (decodeWith inner).Tracks type.emit type := by
  cases type with
  | primitive kind => exact tracks_announce (tracks_pure _)
  | classType token => exact tracks_announce (tracks_map (CodedToken.tracks_decode token) classType)
  | valueType token => exact tracks_announce (tracks_map (CodedToken.tracks_decode token) valueType)
  | vector element => exact tracks_announce (tracks_map (h element (by simp [children])) vector)
  | array element shape =>
    exact tracks_announce (tracks_bind (h element (by simp [children]))
      (tracks_map (ArrayShape.tracks_decode shape) (array element)))
  | pointer target => exact tracks_announce (tracks_map (h target (by simp [children])) pointer)
  | byRef target => exact tracks_announce (tracks_map (h target (by simp [children])) byRef)
  | genericParam index ofMethod =>
    have hindex := tracks_decodeUnsigned index
    cases ofMethod with
    | true => exact tracks_announce (tracks_map hindex (genericParam · true))
    | false => exact tracks_announce (tracks_map hindex (genericParam · false))
  | instantiation base isValueType args =>
    have hstalls : (decodeInstantiation inner).Stalls [] :=
      stalls_bind stalls_decodeBaseMarker
    rw [emit_instantiation]
    refine tracks_announce (tracks_require hstalls fun hne => ?_)
    refine tracks_bind (tracks_decodeBaseMarker isValueType) ?_
    refine tracks_bind (CodedToken.tracks_decode base) ?_
    have hnonempty : args ≠ [] := by simpa using hne
    exact tracks_map (tracks_decodeNonempty _ _ hnonempty h) (instantiation base isValueType)
  | functionPointer header result params =>
    have hmethod := MethodSig.tracks_decodeWith header (h result List.mem_cons_self)
      fun param hparam => h param (List.mem_cons_of_mem _ hparam)
    rw [emit_functionPointer]
    exact tracks_announce (tracks_map hmethod MethodSig.pointer)
  | modified modifier required inner =>
    have hmodifier := CodedToken.tracks_decode modifier
    have hinner := h inner (by simp [children])
    cases required with
    | true =>
      exact tracks_announce (tracks_bind hmodifier (tracks_map hinner (modified modifier true)))
    | false =>
      exact tracks_announce (tracks_bind hmodifier (tracks_map hinner (modified modifier false)))
  | pinned inner => exact tracks_announce (tracks_map (h inner (by simp [children])) pinned)

/-- A type that has no more levels than may be read is tracked, whether it can be written or not. -/
theorem tracks_decodeWithin (limit : Nat) {levels : Nat} {type : TypeSig}
    (h : type.depth ≤ levels) : (decodeWithin limit levels).Tracks type.emit type := by
  induction levels generalizing type with
  | zero => exact absurd (depth_pos type) (Nat.not_lt_of_le h)
  | succ levels ih =>
    exact tracks_of_children fun child hchild => ih (depth_le_succ_iff.1 h child hchild)

end TypeSig

end SignatureBlob
