/-!
# Big-endian numbers

Numbers as a fixed number of bytes, the most significant first.

Main statements: `BigEndian.value_encode` (a number that fits reads back) and
`BigEndian.encode_value` (bytes that are read are the ones to write).
-/

namespace SignatureBlob.BigEndian

/-- The number that bytes stand for. -/
def value (bytes : List UInt8) : Nat :=
  bytes.foldl (fun number byte => number * 256 + byte.toNat) 0

/-- The last `size` bytes of a number. -/
def encode : Nat → Nat → List UInt8
  | 0, _ => []
  | size + 1, number => encode size (number / 256) ++ [UInt8.ofNat number]

/-- The number of numbers that `size` bytes can stand for. -/
def span : Nat → Nat
  | 0 => 1
  | size + 1 => span size * 256

/-- A number takes as many bytes as it is asked to. -/
@[simp] theorem length_encode (size number : Nat) : (encode size number).length = size := by
  induction size generalizing number with
  | zero => rfl
  | succ size ih => simp [encode, ih]

/-- The last byte is the least significant one. -/
theorem value_append_singleton (bytes : List UInt8) (byte : UInt8) :
    value (bytes ++ [byte]) = value bytes * 256 + byte.toNat := by
  simp [value]

/-- A number that the bytes have room for comes back from them. -/
theorem value_encode {size number : Nat} (h : number < span size) :
    value (encode size number) = number := by
  induction size generalizing number with
  | zero => simp [span] at h; simp [encode, value, h]
  | succ size ih =>
    have hdiv : number / 256 < span size := by
      rw [span] at h
      exact Nat.div_lt_of_lt_mul (by omega)
    rw [encode, value_append_singleton, ih hdiv, UInt8.toNat_ofNat']
    omega

/-- Bytes come back from their number, read from the last one on. -/
theorem encode_value_reverse (bytes : List UInt8) :
    encode bytes.length (value bytes.reverse) = bytes.reverse := by
  induction bytes with
  | nil => rfl
  | cons byte bytes ih =>
    have hbyte := byte.toNat_lt
    have hdiv : (value bytes.reverse * 256 + byte.toNat) / 256 = value bytes.reverse := by omega
    rw [List.reverse_cons, List.length_cons, encode, value_append_singleton, hdiv, ih]
    congr 2
    apply UInt8.toNat_inj.1
    rw [UInt8.toNat_ofNat']
    omega

/-- Bytes come back from their number. -/
theorem encode_value (bytes : List UInt8) : encode bytes.length (value bytes) = bytes := by
  simpa using encode_value_reverse bytes.reverse

end SignatureBlob.BigEndian
