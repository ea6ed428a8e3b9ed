import SignatureBlob.Proofs.Outlay
import SignatureBlob.Proofs.TextReading

/-!
# Lengths of texts

No blob is blown up by showing it: the text of what is read has at most twenty characters for each
byte that was gone over. Each type is allowed two characters less than that, which pay for the comma
and the space behind it in a list. The dearest parts are the keywords of a method, which the header
byte and the number of parameters pay for, and the brackets of an array, whose dimensions need no
bytes at all; it is the limit on the rank that keeps the latter cheap.

Main statements: `ArrayShape.length_text_le`, `MethodSig.length_text_lt`, `TypeSig.length_text_le`
and `Subject.length_text_le_of_decode`.
-/

namespace SignatureBlob

open Grammar CompressedInt

variable {latitude : Latitude} {bytes : List UInt8}

/-! ## Numbers and lists -/

/-- Numbers below ten to the ninth have nine digits at most. -/
theorem length_toDigits_le {n : Nat} (h : n < 10 ^ 9) : (Nat.toDigits 10 n).length ≤ 9 :=
  (Nat.length_toDigits_le_iff (by decide) (by decide)).2 h

/-- The numbers of a blob have nine digits at most. -/
theorem CompressedInt.DerivesUnsigned.length_toDigits_le {value : Nat}
    (h : DerivesUnsigned latitude value bytes) : (Nat.toDigits 10 value).length ≤ 9 := by
  have hmax : maxUnsigned < 10 ^ 9 := by decide
  exact SignatureBlob.length_toDigits_le (Nat.lt_of_le_of_lt h.le_maxUnsigned hmax)

/-- A sign and nine digits at most. -/
theorem length_repr_le {n : Int} (hlow : -10 ^ 9 < n) (hhigh : n < 10 ^ 9) :
    n.repr.toList.length ≤ 10 := by
  cases n with
  | ofNat m =>
    rw [Int.ofNat_eq_natCast] at hhigh
    have hdigits : (Nat.toDigits 10 m).length ≤ 9 := length_toDigits_le (by omega)
    simp only [Int.repr, Nat.toList_repr]
    omega
  | negSucc m =>
    have hdigits : (Nat.toDigits 10 m.succ).length ≤ 9 := length_toDigits_le (by omega)
    simp only [Int.repr, String.toList_append, Nat.toList_repr, List.length_append]
    have hsign : "-".toList.length = 1 := rfl
    omega

/-- Each member of a list pays for a separator. -/
theorem length_intercalate_le (separator : List Char) (texts : List (List Char)) :
    (separator.intercalate texts).length ≤
      (texts.map fun text => text.length + separator.length).sum := by
  induction texts with
  | nil => simp
  | cons text texts ih =>
    cases texts with
    | nil => simp
    | cons second texts =>
      rw [List.intercalate_cons_cons, List.map_cons, List.sum_cons, List.length_append,
        List.length_append]
      omega

/-! ## Array shapes -/

namespace ArrayShape

/-- A shape that has bytes in some latitude is well-formed. -/
theorem Derives.wellFormed {shape : ArrayShape} (h : shape.Derives latitude bytes) :
    shape.WellFormed := by
  obtain ⟨better, hderives, -⟩ := h.respell (respelling_improves latitude)
  exact exists_derives_iff.1 ⟨better, hderives⟩

/-- A bound that is given is paid for by its byte. -/
theorem length_boundsText_le {lower : Option Int} {size : Option Nat}
    (hlower : ∀ bound ∈ lower, minSigned ≤ bound ∧ bound ≤ maxSigned)
    (hsize : ∀ number ∈ size, number ≤ maxUnsigned) :
    (boundsText (lower, size)).length ≤ 20 * (lower.toList.length + size.toList.length) := by
  have hrange : -10 ^ 9 < minSigned - 1 ∧ maxSigned + maxUnsigned < 10 ^ 9 := by decide
  have hmin : minSigned < 0 := by decide
  have hmax : 0 < maxSigned := by decide
  cases lower with
  | none =>
    cases size with
    | none => simp [boundsText_none, boundText]
    | some size =>
      have hnumber := hsize size rfl
      have hrepr := length_repr_le (n := (size : Int)) (by omega) (by omega)
      simp only [boundsText_none, boundText, Option.map_some, Option.elim_some,
        Int.ofNat_eq_natCast, Option.toList_none, Option.toList_some, List.length_nil,
        List.length_singleton]
      omega
  | some lower =>
    obtain ⟨hlow, hhigh⟩ := hlower lower rfl
    have hrepr := length_repr_le (n := lower) (by omega) (by omega)
    rw [boundsText_some]
    cases size with
    | none => simp [boundText]; omega
    | some size =>
      have hnumber := hsize size rfl
      have hlast := length_repr_le (n := lower + size - 1) (by omega) (by omega)
      simp [boundText]
      omega

/-- The members at the first places of a list are its first members. -/
theorem sum_map_range_toList {α : Type} (values : List α) (rank : Nat) :
    ((List.range rank).map fun dimension => values[dimension]?.toList.length).sum =
      (values.take rank).length := by
  induction rank with
  | zero => rfl
  | succ rank ih => simp [List.range_succ, List.take_add_one, ih]

/-- Each dimension needs a comma or a bracket, also where nothing is given for it. -/
theorem length_text_le {shape : ArrayShape} (h : shape.WellFormed) :
    shape.text.toList.length ≤
      2 + shape.rank + 20 * (shape.lowerBounds.length + shape.sizes.length) := by
  have heach : ∀ bounds ∈ shape.dimensions, (boundsText bounds).length + 1 ≤
      20 * (bounds.1.toList.length + bounds.2.toList.length) + 1 := by
    intro bounds hbounds
    obtain ⟨dimension, -, rfl⟩ := List.mem_map.1 hbounds
    refine Nat.succ_le_succ (length_boundsText_le ?_ ?_)
    · exact fun bound hbound => h.lowerBound_mem bound (List.mem_of_getElem? hbound)
    · exact fun size hsize => h.size_le size (List.mem_of_getElem? hsize)
  have hdimensions := List.sum_le_sum heach
  have hlist := length_intercalate_le [','] (shape.dimensions.map boundsText)
  have hgiven : (shape.dimensions.map fun bounds =>
      20 * (bounds.1.toList.length + bounds.2.toList.length) + 1).sum =
        20 * ((shape.lowerBounds.take shape.rank).length + (shape.sizes.take shape.rank).length)
          + shape.rank := by
    rw [← sum_map_range_toList, ← sum_map_range_toList]
    simp [dimensions, Function.comp_def, List.sum_map_add, List.sum_map_mul_left]
  have hbounds := shape.lowerBounds.length_take_le' shape.rank
  have hsizes := shape.sizes.length_take_le' shape.rank
  rw [List.map_map] at hlist
  simp only [Function.comp_def, List.length_singleton] at hlist
  simp only [toList_text, List.length_cons, List.length_append, List.length_nil]
  omega

end ArrayShape

/-! ## Lists -/

namespace TextSuffix

/-- What is listed pays for the commas. -/
theorem length_itemList_le (items : List (Option TypeSig)) :
    (itemList items).length ≤ (items.map fun item => (itemText item).length + 2).sum := by
  have hlist := length_intercalate_le [',', ' '] (items.map itemText)
  rwa [List.map_map] at hlist

end TextSuffix

/-- The dots are as long as three parameters without text. -/
theorem MethodHeader.sum_map_paramItems (sentinel : Option Nat) (params : List TypeSig)
    (measure : Option TypeSig → Nat) :
    ((paramItems sentinel params).map measure).sum =
      (params.map fun param => measure (some param)).sum
        + measure none * sentinel.toList.length := by
  cases sentinel with
  | none => simp [paramItems, Function.comp_def]
  | some index =>
    rw [← List.sum_take_add_sum_drop (params.map fun param => measure (some param)) index]
    simp only [paramItems, List.map_append, List.map_cons, List.map_map, List.map_take,
      List.map_drop, List.sum_append, List.sum_cons, Function.comp_def, Option.toList_some,
      List.length_singleton]
    omega

/-! ## Methods -/

namespace MethodHeader

/-- The longest words are those of an instance method that lists the instance and has an unmanaged
convention. -/
theorem length_words_le (convention : Convention) (hasThis explicitThis : Bool) :
    ((words convention hasThis explicitThis).flatMap String.toList).length ≤ 37 := by
  cases convention <;> cases hasThis <;> cases explicitThis <;> decide

/-- The byte in front of the number of generic parameters pays for their brackets. -/
theorem Derives.length_afterResult_le {header : MethodHeader} (h : header.Derives latitude bytes)
    (mark r : List Char) :
    (header.afterResult mark r).length + 18 ≤ 20 * bytes.length + mark.length + r.length := by
  cases h with
  | plain led flag none =>
    simp [afterResult, flag]
    omega
  | generic led flag counted =>
    have hdigits := counted.length_toDigits_le
    have hcount := counted.length_pos
    simp [afterResult, flag]
    omega

end MethodHeader

open TextSuffix MethodHeader in
/-- A method whose types are paid for has a text shorter than it may be, with or without the mark of
a function pointer. -/
theorem MethodSig.length_text_lt {method : MethodSig} {mark : String} (hmark : mark ∈ ["*", ""])
    (h : method.DerivesWith latitude
      (fun type bytes => type.text.toList.length + 2 ≤ 20 * bytes.length) bytes) :
    (method.header.text mark method.result.text (TypeSig.texts method.params)).toList.length <
      20 * bytes.length := by
  have hmark : mark.toList.length ≤ 1 := by
    have hmarks : ∀ mark ∈ ["*", ""], mark.toList.length ≤ 1 := by decide
    exact hmarks mark hmark
  obtain ⟨headed, counted, returned, listed, -⟩ := h
  rename_i header result params first second third fourth
  have hcount := counted.length_pos
  have hparams := listed.sum_map_le 20 fun _ _ h => h
  have hitems := length_itemList_le (paramItems header.sentinel params)
  rw [sum_map_paramItems] at hitems
  have hafter := headed.length_afterResult_le mark.toList
    (itemList (paramItems header.sentinel params) ++ [')'])
  have hwords := length_words_le header.convention header.hasThis header.explicitThis
  simp only [itemText, List.length_cons, List.length_nil] at hitems
  simp only [MethodHeader.toList_text, toList_keywords, List.length_append, List.length_singleton]
    at hafter ⊢
  omega

/-! ## Types -/

/-- A token has eight digits behind its mark. -/
theorem Token.length_text (token : Token) : token.text.toList.length = 10 := by
  simp [toList_text, Hexadecimal.length_digits]

namespace TypeSig

/-- The keyword of a primitive type and a separator are paid for by one byte. -/
theorem length_keyword_le (kind : Primitive) : kind.keyword.toList.length ≤ 18 := by
  cases kind <;> decide

open TextSuffix in
/-- The text of a type in a list, with the comma and the space behind it, is paid for by the bytes
of the type. -/
theorem length_text_le {type : TypeSig} (h : type.Derives latitude bytes) :
    type.text.toList.length + 2 ≤ 20 * bytes.length := by
  refine h.induction
    (motive := fun type bytes => type.text.toList.length + 2 ≤ 20 * bytes.length) ?_
  intro element type bytes h
  cases h with
  | primitive kind =>
    have hkeyword := length_keyword_le kind
    simp only [text, List.length_singleton]
    omega
  | classType coded | valueType coded =>
    have hbytes := coded.length_pos
    simp [text, Token.length_text]
    omega
  | vector nested | pointer nested | byRef nested | pinned nested =>
    simp [text]
    omega
  | array nested shaped =>
    have hrank : _ ≤ 32 := shaped.wellFormed.rank_le
    have hshape := ArrayShape.length_text_le shaped.wellFormed
    have hbytes := shaped.length_le
    simp [text]
    omega
  | typeParameter counted | methodParameter counted =>
    have hdigits := counted.length_toDigits_le
    have hbytes := counted.length_pos
    simp [text]
    omega
  | instantiation coded nonempty counted each =>
    rename_i isValueType args first second third
    have hword : (if isValueType then "valuetype " else "class ").toList.length ≤ 10 := by
      cases isValueType <;> decide
    have hargs := each.sum_map_le 20 fun _ _ h => h
    have hitems := length_itemList_le (args.map some)
    have hbase := coded.length_pos
    have hcount := counted.length_pos
    rw [List.map_map] at hitems
    simp only [itemText, Function.comp_def] at hitems
    simp [text, Token.length_text, toList_commaList]
    omega
  | functionPointer method =>
    have hmark : "*" ∈ ["*", ""] := by decide
    have hmethod := MethodSig.length_text_lt hmark method
    dsimp only at hmethod
    simp [text]
    omega
  | requiredModifier coded nested | optionalModifier coded nested =>
    have hbytes := coded.length_pos
    simp [text, Token.length_text]
    omega

end TypeSig

/-! ## Signatures -/

open TextSuffix in
/-- The text of a signature is paid for by its bytes. -/
theorem Signature.length_text_le {signature : Signature} (h : signature.Derives latitude bytes) :
    signature.text.toList.length ≤ 20 * bytes.length := by
  have hpaid := h.mono fun _ _ h => TypeSig.length_text_le h
  have hlist : ∀ {types : List TypeSig} {bytes : List UInt8},
      Each (fun type bytes => type.text.toList.length + 2 ≤ 20 * bytes.length) types bytes →
        (commaList (TypeSig.texts types)).toList.length ≤ 20 * bytes.length := by
    intro types bytes each
    have htypes := each.sum_map_le 20 fun _ _ h => h
    have hitems := length_itemList_le (types.map some)
    rw [List.map_map] at hitems
    rw [toList_commaList]
    exact Nat.le_trans hitems htypes
  cases hpaid with
  | method derived =>
    have hmark : "" ∈ ["*", ""] := by decide
    exact Nat.le_of_lt (MethodSig.length_text_lt hmark derived)
  | field derived =>
    simp [text]
    omega
  | typeSpec derived => exact Nat.le_trans (Nat.le_add_right _ 2) derived
  | property counted derived each =>
    rename_i hasThis type params first second third
    have hword : (if hasThis then "instance " else "").toList.length ≤ 9 := by
      cases hasThis <;> decide
    have hcount := counted.length_pos
    have hparams := hlist each
    simp [text]
    omega
  | locals nonempty counted each | methodSpec nonempty counted each =>
    have hcount := counted.length_pos
    have htypes := hlist each
    simp [text]
    omega

/-! ## Subjects -/

namespace Subject

/-- The text of what is read at one go. -/
def text : Subject → String
  | signature whole => whole.text
  | type single => single.text

/-- What is read from a blob has a text of at most twenty characters for each byte that was gone
over, for all kinds, starts and options. -/
theorem length_text_le_of_decode {options : DecodeOptions} {kind : SubjectKind} {subject : Subject}
    {start stop : Cursor} (h : (decode options kind).run start = .ok subject stop) :
    subject.text.length ≤ 20 * (stop.position - start.position) := by
  obtain ⟨bytes, hderives, hpasses⟩ := exists_derives h
  have hlength : stop.position - start.position = bytes.length := by
    rw [hpasses.2, Nat.add_sub_cancel_left]
  rw [hlength, ← String.length_toList]
  cases subject with
  | signature whole => exact Signature.length_text_le hderives
  | type single => exact Nat.le_trans (Nat.le_add_right _ 2) (TypeSig.length_text_le hderives)

/-- Three bytes of a method whose header shows as four keywords. -/
theorem length_text_le_of_decode_keywords :
    (decode ⟨1, true⟩ (.signature .method)).run (.start [0x64, 0x00, 0x01]) =
        .ok (.signature (.method ⟨⟨.fastCall, true, true, false, 0, none⟩, .primitive .void, []⟩))
          ⟨3, []⟩ ∧
      (Signature.method ⟨⟨.fastCall, true, true, false, 0, none⟩, .primitive .void, []⟩).text =
        "instance explicit unmanaged fastcall void ()" ∧
      "instance explicit unmanaged fastcall void ()".length ≤ 60 := by
  have hread : (decode ⟨1, true⟩ (.signature .method)).run (.start [0x64, 0x00, 0x01]) =
      .ok (.signature (.method ⟨⟨.fastCall, true, true, false, 0, none⟩, .primitive .void, []⟩))
        ⟨3, []⟩ := rfl
  have htext :
      (Signature.method ⟨⟨.fastCall, true, true, false, 0, none⟩, .primitive .void, []⟩).text =
        "instance explicit unmanaged fastcall void ()" := by decide
  refine ⟨hread, htext, ?_⟩
  rw [← htext]
  exact length_text_le_of_decode hread

end Subject

end SignatureBlob
