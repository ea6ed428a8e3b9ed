import SignatureBlob.TypeSig.Encode

/-!
# Equations of emissions

What is written for a value, as emissions one behind the other. A writer counts up to the place of
the sentinel; for proofs by induction on the parameters it is counted down.

Main definition: `MethodHeader.emitParams`. Main statements: `MethodHeader.emit_eq` and
`TypeSig.exists_emit_eq_announce`.
-/

namespace SignatureBlob

/-! ## Integers and tokens -/

namespace CompressedInt

/-- The shortest form is told by the integer, and without one there is nothing to write. -/
theorem emitUnsigned_eq (value : Nat) : emitUnsigned value =
    match Form.forUnsigned? value with
    | some form => .ofBytes (form.encode value)
    | none => .fail (UInt8.ofNat (value / 0x1000000)) (.unsignedRange value) := rfl

/-- The shortest form is told by the integer, and without one there is nothing to write. -/
theorem emitSigned_eq (value : Int) : emitSigned value =
    match Form.forSigned? value with
    | some form => .ofBytes (form.encode (form.payload value))
    | none => .fail (UInt8.ofInt (value / 0x1000000)) (.signedRange value) := rfl

/-- A number of members is written as an integer, unless it is beyond 32 bits. -/
theorem emitCount_eq (observed : UInt8) (listed : Listed) (count : Nat) :
    emitCount observed listed count =
      if count < countLimit then emitUnsigned count
      else .fail observed (.tooMany listed count) := rfl

end CompressedInt

open CompressedInt Emission

/-- A token is written as its number, if it points into a table of types. -/
theorem CodedToken.emit_eq (token : Token) : emit token =
    match token.typeTable? with
    | some table => emitUnsigned (code table token.row)
    | none => .fail token.table (.tokenTable token) := rfl

/-! ## Shapes and methods -/

/-- The rank is checked first and then written in front of the sizes and the lower bounds. -/
theorem ArrayShape.emit_eq (shape : ArrayShape) : shape.emit =
    require (0 < shape.rank ∧ shape.rank ≤ maxRank) ElementType.array.byte (.arrayRank shape.rank)
      ++ (require (shape.sizes.length ≤ shape.rank ∧ shape.lowerBounds.length ≤ shape.rank)
          ElementType.array.byte (.shapeExceedsRank shape.rank)
      ++ (emitUnsigned shape.rank
      ++ (emitCount ElementType.array.byte .arraySizes shape.sizes.length
      ++ (concat (shape.sizes.map emitUnsigned)
      ++ (emitCount ElementType.array.byte .lowerBounds shape.lowerBounds.length
      ++ concat (shape.lowerBounds.map emitSigned)))))) := by
  simp only [emit, put, append_assoc]

namespace MethodHeader

/-- Parameters one behind the other, the sentinel in front of the one at its place. -/
def emitParams : (sentinel : Option Nat) → List Emission → Emission
  | _, [] => .empty
  | some 0, param :: params =>
    .byte ElementType.sentinelByte ++ param ++ emitParams none params
  | some (index + 1), param :: params => param ++ emitParams (some index) params
  | none, param :: params => param ++ emitParams none params

/-- The place of the sentinel as counted from a parameter on. -/
def sentinelFrom (index : Nat) (sentinel : Option Nat) : Option Nat :=
  sentinel.bind fun place => if index ≤ place then some (place - index) else none

/-- From the first parameter on the place is the place itself. -/
theorem sentinelFrom_zero (sentinel : Option Nat) : sentinelFrom 0 sentinel = sentinel := by
  cases sentinel <;> rfl

/-- From the parameter that it stands in front of on the place is zero. -/
theorem sentinelFrom_self (index : Nat) : sentinelFrom index (some index) = some 0 := by
  simp [sentinelFrom]

/-- Of a parameter that the sentinel does not stand in front of, the place is one less from the next
parameter on, or none. -/
theorem emitParams_sentinelFrom {sentinel : Option Nat} {index : Nat} (h : sentinel ≠ some index)
    (param : Emission) (params : List Emission) :
    emitParams (sentinelFrom index sentinel) (param :: params) =
      param ++ emitParams (sentinelFrom (index + 1) sentinel) params := by
  cases sentinel with
  | none => rfl
  | some place =>
    by_cases hle : index ≤ place
    · have hlt : index + 1 ≤ place := by
        have hne : place ≠ index := fun heq => h (congrArg some heq)
        omega
      have hplace : place - index = (place - (index + 1)) + 1 := by omega
      simp only [sentinelFrom, Option.bind_some, if_pos hle, if_pos hlt, hplace, emitParams]
    · have hlt : ¬ index + 1 ≤ place := by omega
      simp only [sentinelFrom, Option.bind_some, if_neg hle, if_neg hlt, emitParams]

/-- The place of the sentinel can be counted up to or down from. -/
theorem putParams_eq (sentinel : Option Nat) (index : Nat) (params : List Emission) :
    putParams sentinel index params = emitParams (sentinelFrom index sentinel) params := by
  induction params generalizing index with
  | nil => cases sentinelFrom index sentinel <;> rfl
  | cons param params ih =>
    rw [putParams, ih]
    by_cases hplace : sentinel = some index
    · subst hplace
      have hnone : sentinelFrom (index + 1) (some index) = none := by simp [sentinelFrom]
      rw [if_pos rfl, sentinelFrom_self, hnone]
      rfl
    · rw [if_neg hplace, emitParams_sentinelFrom hplace]
      rfl

/-- The instance, the arity and the sentinel are checked one after the other. -/
theorem emitChecks_eq (header : MethodHeader) (count : Nat) : header.emitChecks count =
    require (!header.explicitThis || header.hasThis) header.byte .explicitWithoutThis
      ++ (require (header.generic || header.arity == 0) header.byte
        (.arityWithoutGeneric header.arity)
      ++ require (header.sentinelFits count) ElementType.sentinelByte
        (.sentinelPlace (header.sentinel.getD 0) header.convention count)) := by
  simp only [emitChecks, putChecks, append_assoc]

/-- The checks stand in front of the first byte, and the types behind all numbers. -/
theorem emit_eq (header : MethodHeader) (result : Emission) (params : List Emission) :
    header.emit result params = header.emitChecks params.length
      ++ (.byte header.byte
      ++ ((if header.generic then emitUnsigned header.arity else .empty)
      ++ (emitCount header.byte .parameters params.length
      ++ (result
      ++ emitParams header.sentinel params)))) := by
  simp only [emit, put, putParams_eq, sentinelFrom_zero, append_assoc]
  rfl

end MethodHeader

/-! ## Types -/

namespace TypeSig

/-- Types are written each by itself. -/
theorem emitEach_eq_map (types : List TypeSig) : emitEach types = types.map emit :=
  putEach_eq_map types

/-- A generic type without arguments is refused behind its first byte. -/
theorem emit_instantiation (base : Token) (isValueType : Bool) (args : List TypeSig) :
    emit (instantiation base isValueType args) = announce .instantiation
      (require (!args.isEmpty) ElementType.instantiation.byte .noTypeArguments
        ++ (.byte (if isValueType then ElementType.valueType else ElementType.classType).byte
        ++ (CodedToken.emit base
        ++ (emitCount ElementType.instantiation.byte .typeArguments args.length
        ++ concat (args.map emit))))) := by
  simp only [emit, put, putEach_eq_map, append_assoc]

/-- A function pointer is its byte and a method. -/
theorem emit_functionPointer (header : MethodHeader) (result : TypeSig) (params : List TypeSig) :
    emit (functionPointer header result params) =
      announce .functionPointer (header.emit result.emit (params.map emit)) := by
  simp only [emit, put, putEach_eq_map]

/-- A type is written behind the byte that announces it. -/
theorem exists_emit_eq_announce (type : TypeSig) :
    ∃ rest, emit type = announce type.elementType rest := by
  cases type <;> exact ⟨_, by simp only [emit, put, elementType]; rfl⟩

end TypeSig

/-- A method is written from its types as these are written. -/
theorem MethodSig.emit_eq (method : MethodSig) :
    method.emit = method.header.emit method.result.emit (method.params.map TypeSig.emit) := by
  rw [emit, TypeSig.emitEach_eq_map]

end SignatureBlob
