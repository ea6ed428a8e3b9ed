import SignatureBlob.Proofs.Emitting
import SignatureBlob.Proofs.IntegerForms

/-!
# The grammar of emissions

Writing succeeds with the bytes that the narrower grammar has, each integer in its shortest form,
and with no others: for each way to combine emissions it is said when the whole is written without a
fault, and each writer combines emissions in these ways.

Main statements: `Emission.append_eq_ofBytes_iff`, `Emission.concat_eq_ofBytes_iff`,
`CodedToken.emit_eq_ofBytes_iff` and `ArrayShape.emit_eq_ofBytes_iff`.
-/

namespace SignatureBlob

open Grammar CompressedInt

variable {bytes : List UInt8}

/-! ## Combinations -/

namespace Emission

/-- Bytes are told by their emission. -/
@[simp] theorem ofBytes_inj {other : List UInt8} : ofBytes bytes = ofBytes other ↔ bytes = other :=
  ⟨congrArg Emission.bytes, congrArg ofBytes⟩

/-- Nothing is written as no bytes. -/
@[simp] theorem empty_eq_ofBytes_iff : empty = ofBytes bytes ↔ bytes = [] :=
  ofBytes_inj.trans eq_comm

/-- A byte is written as itself. -/
@[simp] theorem byte_eq_ofBytes_iff {byte : UInt8} :
    Emission.byte byte = ofBytes bytes ↔ bytes = [byte] :=
  ofBytes_inj.trans eq_comm

/-- A fault is never written. -/
@[simp] theorem fail_ne_ofBytes (observed : UInt8) (defect : Defect) :
    fail observed defect ≠ ofBytes bytes := by
  intro h
  cases congrArg fault h

/-- A sequence is written exactly when both of its parts are. -/
theorem append_eq_ofBytes_iff {first second : Emission} :
    first ++ second = ofBytes bytes ↔
      ∃ front back, first = ofBytes front ∧ second = ofBytes back ∧ bytes = front ++ back := by
  constructor
  · intro h
    cases hfault : first.fault with
    | none =>
      rw [append_of_none hfault] at h
      have hsecond : second.fault = none := congrArg fault h
      exact ⟨first.bytes, second.bytes, Emission.ext rfl hfault, Emission.ext rfl hsecond,
        (congrArg Emission.bytes h).symm⟩
    | some fault' =>
      rw [append_of_some hfault] at h
      rw [h] at hfault
      cases hfault
  · rintro ⟨front, back, rfl, rfl, rfl⟩
    rfl

/-- A byte is written in front of what comes behind it. -/
theorem byte_append_eq_ofBytes_iff {byte : UInt8} {rest : Emission} :
    .byte byte ++ rest = ofBytes bytes ↔ ∃ back, rest = ofBytes back ∧ bytes = byte :: back := by
  simp [append_eq_ofBytes_iff]

/-- A condition is passed exactly if it holds, and writes nothing. -/
@[simp] theorem require_eq_ofBytes_iff {condition : Bool} {observed : UInt8} {defect : Defect} :
    require condition observed defect = ofBytes bytes ↔ condition = true ∧ bytes = [] := by
  cases condition with
  | true => simp only [require_true, empty_eq_ofBytes_iff, true_and]
  | false => simp only [require_false, fail_ne_ofBytes, reduceCtorEq, false_and]

/-- What stands behind a condition is written exactly if the condition holds. -/
theorem require_append_eq_ofBytes_iff {condition : Bool} {observed : UInt8} {defect : Defect}
    {rest : Emission} :
    require condition observed defect ++ rest = ofBytes bytes ↔
      condition = true ∧ rest = ofBytes bytes := by
  simp [append_eq_ofBytes_iff, and_assoc]

/-- A list is written exactly when each of its members is. -/
theorem concat_eq_ofBytes_iff {α : Type} {item : α → Emission} {values : List α} :
    concat (values.map item) = ofBytes bytes ↔
      Each (fun value bytes => item value = ofBytes bytes) values bytes := by
  induction values generalizing bytes with
  | nil =>
    rw [List.map_nil, concat_nil, empty_eq_ofBytes_iff]
    constructor
    · rintro rfl
      exact .nil
    · rintro ⟨⟩
      rfl
  | cons value values ih =>
    rw [List.map_cons, concat_cons, append_eq_ofBytes_iff]
    constructor
    · rintro ⟨front, back, hvalue, hvalues, rfl⟩
      exact .cons hvalue (ih.1 hvalues)
    · intro h
      cases h with
      | cons head tail => exact ⟨_, _, head, ih.2 tail, rfl⟩

/-- A blob comes out exactly of an emission without a fault. -/
theorem toBlob_eq_ok_iff {emission : Emission} :
    emission.toBlob = .ok bytes ↔ emission = ofBytes bytes := by
  obtain ⟨written, fault⟩ := emission
  cases fault with
  | none =>
    simp only [toBlob, error?, Option.map_none, Except.ok.injEq]
    exact ofBytes_inj.symm
  | some fault =>
    simp only [toBlob, error?, Option.map_some, reduceCtorEq, false_iff]
    intro h
    cases congrArg Emission.fault h

end Emission

open Emission

/-! ## Integers and tokens -/

/-- A token into a table of types is built from that table and its row. -/
theorem Token.ofParts_row {token : Token} {table : TypeTable} (h : token.typeTable? = some table) :
    ofParts table token.row = token := by
  have hvalue : token.value.toNat < 2 ^ 32 := token.value.toNat_lt
  have hbyte : table.byte.toNat = token.value.toNat / rowLimit := by
    rw [TypeTable.byte_of_ofByte? h, Token.table, UInt8.toNat_ofNat']
    simp only [rowLimit]
    omega
  have hparts : (ofParts table token.row).value.toNat = token.value.toNat := by
    rw [toNat_ofParts, hbyte, row, Nat.mod_mod]
    exact Nat.div_add_mod' _ _
  exact congrArg mk (UInt32.toNat_inj.1 hparts)

namespace CompressedInt

/-- An unsigned integer is written exactly in its shortest form. -/
theorem emitUnsigned_eq_ofBytes_iff {value : Nat} :
    emitUnsigned value = .ofBytes bytes ↔ DerivesUnsigned .shortest value bytes := by
  constructor
  · intro h
    rw [emitUnsigned_eq] at h
    split at h
    · next form hform =>
      obtain rfl := ofBytes_inj.1 h
      exact .intro (Form.lt_span_of_forUnsigned? hform) hform
    · exact absurd h (fail_ne_ofBytes _ _)
  · rintro ⟨_, admitted⟩
    rw [emitUnsigned_eq, show Form.forUnsigned? value = some _ from admitted]

/-- A signed integer is written exactly in its shortest form. -/
theorem emitSigned_eq_ofBytes_iff {value : Int} :
    emitSigned value = .ofBytes bytes ↔ DerivesSigned .shortest value bytes := by
  constructor
  · intro h
    rw [emitSigned_eq] at h
    split at h
    · next form hform =>
      obtain rfl := ofBytes_inj.1 h
      exact .intro (Form.reaches_of_forSigned? hform) hform
    · exact absurd h (fail_ne_ofBytes _ _)
  · rintro ⟨_, admitted⟩
    rw [emitSigned_eq, show Form.forSigned? value = some _ from admitted]

/-- What has a form is no larger than the largest unsigned integer. -/
theorem DerivesUnsigned.le_maxUnsigned {latitude : Latitude} {value : Nat}
    (h : DerivesUnsigned latitude value bytes) : value ≤ maxUnsigned := by
  obtain ⟨wide, _⟩ := h
  exact Nat.le_sub_one_of_lt (Nat.lt_of_lt_of_le wide (Form.span_le_four _))

/-- The limit on counts refuses nothing that could be written. -/
theorem emitCount_eq_ofBytes_iff {observed : UInt8} {listed : Listed} {count : Nat} :
    emitCount observed listed count = .ofBytes bytes ↔ DerivesUnsigned .shortest count bytes := by
  rw [emitCount_eq]
  split
  · exact emitUnsigned_eq_ofBytes_iff
  · next hlimit =>
    have hmax : maxUnsigned < countLimit := by decide
    constructor
    · intro h
      exact absurd h (fail_ne_ofBytes _ _)
    · intro h
      have := h.le_maxUnsigned
      omega

end CompressedInt

namespace CodedToken

/-- The number of a token is never too large. -/
theorem code_le_maxUnsigned (table : TypeTable) (token : Token) :
    code table token.row ≤ maxUnsigned := by
  have htag := tag_lt table
  have hrow := token.row_lt
  have hlimit : Token.rowLimit * 4 ≤ maxUnsigned := by decide
  rw [code]
  omega

/-- A token is written exactly if it points into a table of types, as its number. -/
theorem emit_eq_ofBytes_iff {token : Token} :
    emit token = .ofBytes bytes ↔ Derives .shortest token bytes := by
  constructor
  · intro h
    rw [emit_eq] at h
    split at h
    · next table htable =>
      rw [← Token.ofParts_row htable]
      exact .intro token.row_lt (emitUnsigned_eq_ofBytes_iff.1 h)
    · exact absurd h (fail_ne_ofBytes _ _)
  · rintro ⟨narrow, coded⟩
    rw [emit_eq, Token.typeTable?_ofParts, Token.row_ofParts, Nat.mod_eq_of_lt narrow]
    exact emitUnsigned_eq_ofBytes_iff.2 coded

end CodedToken

/-! ## Array shapes -/

/-- A shape is written exactly if its numbers go together, each in its shortest form. -/
theorem ArrayShape.emit_eq_ofBytes_iff {shape : ArrayShape} :
    shape.emit = .ofBytes bytes ↔ shape.Derives .shortest bytes := by
  simp only [ArrayShape.emit_eq, require_append_eq_ofBytes_iff, decide_eq_true_eq]
  simp only [append_eq_ofBytes_iff, emitUnsigned_eq_ofBytes_iff, emitCount_eq_ofBytes_iff,
    concat_eq_ofBytes_iff, emitSigned_eq_ofBytes_iff]
  constructor
  · rintro ⟨⟨positive, bounded⟩, ⟨fewSizes, fewBounds⟩, first, _, ranked, ⟨second, _, sizeCount,
      ⟨third, _, eachSize, ⟨fourth, fifth, boundCount, eachBound, rfl⟩, rfl⟩, rfl⟩, rfl⟩
    exact .intro positive bounded fewSizes fewBounds ranked sizeCount eachSize boundCount eachBound
  · rintro ⟨positive, bounded, fewSizes, fewBounds, ranked, sizeCount, eachSize, boundCount,
      eachBound⟩
    exact ⟨⟨positive, bounded⟩, ⟨fewSizes, fewBounds⟩, _, _, ranked, ⟨_, _, sizeCount,
      ⟨_, _, eachSize, ⟨_, _, boundCount, eachBound, rfl⟩, rfl⟩, rfl⟩, rfl⟩

end SignatureBlob
