import Mathlib.Algebra.Ring.Int.Defs
import Mathlib.Algebra.Ring.Nat
import Mathlib.Data.List.Induction
import SignatureBlob.Proofs.IntegerForms

/-!
# Integers in words

Integers by the rules of their forms are exact numbers. A machine has words of 32 bits for them: it
shifts bytes into a word, cuts the payload out with a mask, and takes the sign off the lowest bit.
Nothing is lost on the way, since four bytes fill a word, no payload has more than 29 bits, and half
a payload and the bias of its form are small signed words.

Main statements: `Form.signed_mod_eq_toInt_rotateRight` (the sign is rotated out of the lowest bit),
`Form.readsExactly` and `Form.writesExactly` (words compute the same as numbers, without overflow).
-/

namespace SignatureBlob

/-- Three bytes leave room for one more in a word of 32 bits. -/
theorem BigEndian.span_le_of_le_three {size : Nat} (h : size ≤ 3) : span size ≤ 2 ^ 24 := by
  match size, h with
  | 0, _ | 1, _ | 2, _ | 3, _ => decide

namespace CompressedInt

/-! ## Payloads as bit vectors -/

/-- The lowest bit becomes the highest. -/
theorem toNat_rotateRight_one {width : Nat} (bits : BitVec width) (hwidth : 1 < width) :
    (bits.rotateRight 1).toNat = 2 ^ (width - 1) * (bits.toNat % 2) + bits.toNat / 2 := by
  have hpow : 2 ^ width = 2 ^ (width - 1) * 2 := by
    rw [← Nat.pow_succ, Nat.succ_eq_add_one, Nat.sub_add_cancel (Nat.le_of_lt hwidth)]
  have hhalf : bits.toNat / 2 < 2 ^ (width - 1) := by
    have hlt := bits.isLt
    omega
  rw [BitVec.toNat_rotateRight, Nat.mod_eq_of_lt hwidth, Nat.shiftRight_eq_div_pow,
    Nat.pow_one, Nat.shiftLeft_eq, Nat.mul_comm bits.toNat, hpow, Nat.mul_mod_mul_left, Nat.or_comm,
    ← Nat.two_pow_add_eq_or_of_lt hhalf]

namespace Form

/-- The number of bits of a payload. -/
def width : Form → Nat
  | one => 7
  | two => 14
  | four => 29

/-- The width of a form is the number of bits of its payloads. -/
theorem two_pow_width (form : Form) : 2 ^ form.width = form.span := by
  cases form <;> rfl

/-- A signed integer is its payload, the low bits of the number, rotated right by one bit and read
with its sign. -/
theorem signed_mod_eq_toInt_rotateRight (form : Form) (number : Nat) :
    form.signed (number % form.span) =
      ((BitVec.ofNat form.width number).rotateRight 1).toInt := by
  have hwidth : 1 < form.width := by cases form <;> decide
  have hlt : number % form.span < form.span := Nat.mod_lt _ form.span_pos
  have hbits : (BitVec.ofNat form.width number).toNat = number % form.span := by
    rw [BitVec.toNat_ofNat, two_pow_width]
  have hspan : form.span = 2 ^ (form.width - 1) * 2 := by cases form <;> rfl
  rw [BitVec.toInt_eq_toNat_cond, toNat_rotateRight_one _ hwidth, hbits, two_pow_width, signed]
  generalize number % form.span = payload at hlt
  generalize 2 ^ (form.width - 1) = half at hspan
  rcases Nat.mod_two_eq_zero_or_one payload with heven | hodd
  · rw [heven, Nat.mul_zero, Nat.zero_add, if_pos rfl, if_pos (by omega)]
  · rw [hodd, Nat.mul_one, if_neg Nat.one_ne_zero, if_neg (by omega)]
    omega

end Form

/-! ## Words -/

/-- Bytes shifted into a word, the most significant first. -/
def wordOfBytes (bytes : List UInt8) : UInt32 :=
  bytes.foldl (fun word byte => word <<< 8 ||| byte.toUInt32) 0

/-- A byte that is shifted in drops nothing while the top byte is free. -/
theorem toNat_shiftLeft_or {word : UInt32} (byte : UInt8) (h : word.toNat < 2 ^ 24) :
    (word <<< 8 ||| byte.toUInt32).toNat = word.toNat * 256 + byte.toNat := by
  have hbyte := byte.toNat_lt
  have hshift : (word <<< 8).toNat = 2 ^ 8 * word.toNat := by
    rw [UInt32.toNat_shiftLeft]
    change word.toNat <<< 8 % 2 ^ 32 = _
    rw [Nat.shiftLeft_eq, Nat.mod_eq_of_lt (by omega), Nat.mul_comm]
  rw [UInt32.toNat_or, hshift, UInt8.toNat_toUInt32, ← Nat.two_pow_add_eq_or_of_lt hbyte]
  omega

/-- A word is negative as an integer from its upper half on. -/
theorem toInt_toInt32 (word : UInt32) :
    word.toInt32.toInt =
      if 2 * word.toNat < 2 ^ 32 then (word.toNat : Int) else word.toNat - 2 ^ 32 :=
  BitVec.toInt_eq_toNat_cond word.toBitVec

/-- A shift by one bit doubles a word, and the top bit falls off. -/
theorem toNat_shiftLeft_one (word : UInt32) : (word <<< 1).toNat = 2 * word.toNat % 2 ^ 32 := by
  rw [UInt32.toNat_shiftLeft]
  change word.toNat <<< 1 % 2 ^ 32 = _
  rw [Nat.shiftLeft_eq, Nat.pow_one, Nat.mul_comm]

/-- Up to four bytes have the same number in a word. -/
theorem toNat_wordOfBytes {bytes : List UInt8} (h : bytes.length ≤ 4) :
    (wordOfBytes bytes).toNat = BigEndian.value bytes := by
  induction bytes using List.reverseRecOn with
  | nil => rfl
  | append_singleton bytes byte ih =>
    rw [List.length_append, List.length_singleton] at h
    have hvalue := ih (by omega)
    have hfree : (wordOfBytes bytes).toNat < 2 ^ 24 := by
      rw [hvalue]
      exact Nat.lt_of_lt_of_le (BigEndian.value_lt bytes)
        (BigEndian.span_le_of_le_three (Nat.le_of_succ_le_succ h))
    rw [wordOfBytes, List.foldl_append, List.foldl_cons, List.foldl_nil,
      BigEndian.value_append_singleton, ← hvalue]
    exact toNat_shiftLeft_or byte hfree

namespace Form

/-- The bits of a word that hold the payload. -/
def mask : Form → UInt32
  | one => 0x7F
  | two => 0x3FFF
  | four => 0x1FFFFFFF

/-- The bits of a word that hold the payload without its lowest bit. -/
def rotatedMask : Form → UInt32
  | one => 0x7E
  | two => 0x3FFE
  | four => 0x1FFFFFFE

/-- What a negative integer is less than half of its payload. -/
def bias : Form → Int32
  | one => 0x40
  | two => 0x2000
  | four => 0x10000000

/-- The payload in the bytes of the form. -/
def payloadWord (form : Form) (bytes : List UInt8) : UInt32 := wordOfBytes bytes &&& form.mask

/-- Half of a payload. -/
def magnitude (payload : UInt32) : Int32 := (payload >>> 1).toInt32

/-- The signed integer that a payload stands for. -/
def signedWord (form : Form) (payload : UInt32) : Int32 :=
  if payload &&& 1 = 0 then magnitude payload else magnitude payload - form.bias

/-- The payload of a signed integer. -/
def rotatedWord (form : Form) (value : Int32) : UInt32 :=
  (value.toUInt32 <<< 1 &&& form.rotatedMask) ||| if value < 0 then 1 else 0

/-- The bytes of a payload in the form. -/
def bytesOfWord (form : Form) (payload : UInt32) : List UInt8 :=
  match form with
  | one => [payload.toUInt8]
  | two => [(0x80 : UInt8) ||| (payload >>> 8).toUInt8, payload.toUInt8]
  | four => [(0xC0 : UInt8) ||| (payload >>> 24).toUInt8, (payload >>> 16).toUInt8,
      (payload >>> 8).toUInt8, payload.toUInt8]

/-- The mask leaves the payload of the form. -/
theorem toNat_and_mask (form : Form) (word : UInt32) :
    (word &&& form.mask).toNat = word.toNat % form.span := by
  have hmask : form.mask.toNat = 2 ^ form.width - 1 := by cases form <;> rfl
  rw [UInt32.toNat_and, hmask, Nat.and_two_pow_sub_one_eq_mod, two_pow_width]

/-- Half of a word is a signed word that is not negative. -/
theorem toInt_magnitude (payload : UInt32) :
    (magnitude payload).toInt = (payload.toNat / 2 : Nat) := by
  have hhalf : (payload >>> 1).toNat = payload.toNat / 2 := by
    rw [UInt32.toNat_shiftRight]
    change payload.toNat >>> 1 = _
    rw [Nat.shiftRight_eq_div_pow, Nat.pow_one]
  have hlt := payload.toNat_lt
  rw [magnitude, toInt_toInt32, hhalf, if_pos (by omega)]

/-- The bias is half the span of the form. -/
theorem toInt_bias (form : Form) : form.bias.toInt = (form.span / 2 : Nat) := by
  cases form <;> rfl

/-- A magnitude is not too small for the bias to be subtracted. -/
theorem ssubOverflow_magnitude_bias (form : Form) (payload : UInt32) :
    (magnitude payload).toBitVec.ssubOverflow form.bias.toBitVec = false := by
  have hmagnitude : (magnitude payload).toBitVec.toInt = (payload.toNat / 2 : Nat) :=
    toInt_magnitude payload
  have hbias : form.bias.toBitVec.toInt = (form.span / 2 : Nat) := toInt_bias form
  have hlt := payload.toNat_lt
  have hspan : form.span ≤ 0x20000000 := form.span_le_four
  simp only [BitVec.ssubOverflow, hmagnitude, hbias, Bool.or_eq_false_iff, decide_eq_false_iff_not]
  constructor <;> omega

/-- The word that is read is the signed integer of the payload. -/
theorem toInt_signedWord (form : Form) (payload : UInt32) :
    (form.signedWord payload).toInt = form.signed payload.toNat := by
  have hlowest : payload &&& 1 = 0 ↔ payload.toNat % 2 = 0 := by
    rw [← UInt32.toNat_inj, UInt32.toNat_and]
    change payload.toNat &&& 1 = 0 ↔ _
    rw [Nat.and_one_is_mod]
  rw [signedWord, signed]
  by_cases heven : payload.toNat % 2 = 0
  · rw [if_pos (hlowest.2 heven), if_pos heven, toInt_magnitude]
  · rw [if_neg (mt hlowest.1 heven), if_neg heven, ← toInt_bias, ← toInt_magnitude]
    exact BitVec.toInt_sub_of_not_ssubOverflow
      (Bool.eq_false_iff.1 (ssubOverflow_magnitude_bias form payload))

/-! ### Writing -/

/-- Of a word that has been doubled no bit is lost to the mask without the lowest bit. -/
theorem toNat_shiftLeft_and_rotatedMask (form : Form) (word : UInt32) :
    (word <<< 1 &&& form.rotatedMask).toNat = 2 ^ 1 * (word.toNat % 2 ^ (form.width - 1)) := by
  have hmask : form.rotatedMask.toNat = 2 * (2 ^ (form.width - 1) - 1) := by cases form <;> rfl
  have hdvd : 2 ^ (form.width - 1) ∣ 2 ^ 31 := by cases form <;> decide
  have hlowest : (2 * word.toNat % 2 ^ 32 &&& form.rotatedMask.toNat) % 2 = 0 := by
    have hmod := @Nat.and_mod_two_pow (2 * word.toNat % 2 ^ 32) form.rotatedMask.toNat 1
    have heven : 2 * word.toNat % 2 ^ 32 % 2 = 0 := by omega
    rwa [Nat.pow_one, heven, Nat.zero_and] at hmod
  have hhalf : (2 * word.toNat % 2 ^ 32 &&& form.rotatedMask.toNat) / 2 =
      word.toNat % 2 ^ (form.width - 1) := by
    have hhalf : 2 * word.toNat % 2 ^ 32 / 2 = word.toNat % 2 ^ 31 := by omega
    rw [Nat.and_div_two, hmask, Nat.mul_div_cancel_left _ Nat.two_pos,
      Nat.and_two_pow_sub_one_eq_mod, hhalf, Nat.mod_mod_of_dvd _ hdvd]
  rw [UInt32.toNat_and, toNat_shiftLeft_one, ← hhalf]
  omega

/-- Doubling drops nothing but copies of the sign. -/
theorem toInt_shiftLeft_one {form : Form} {value : Int32} (h : form.Reaches value.toInt) :
    (value.toUInt32 <<< 1).toInt32.toInt = 2 * value.toInt := by
  obtain ⟨hlow, hhigh⟩ := h
  have hspan : form.span ≤ 0x20000000 := form.span_le_four
  have hvalue := toInt_toInt32 value.toUInt32
  have hlt := value.toUInt32.toNat_lt
  change value.toInt = _ at hvalue
  rw [toInt_toInt32, toNat_shiftLeft_one, hvalue]
  rw [hvalue] at hlow hhigh
  split at hvalue <;> split <;> omega

/-- The word that is written is the payload of the signed integer. -/
theorem toNat_rotatedWord (form : Form) (value : Int32) :
    (form.rotatedWord value).toNat = form.payload value.toInt := by
  -- the sign goes where the mask has left the lowest bit free
  have hsign : (if value < 0 then 1 else 0 : UInt32).toNat = if value.toInt < 0 then 1 else 0 := by
    simp only [Int32.lt_iff_toInt_lt, apply_ite UInt32.toNat]
    rfl
  have hsign_lt : (if value.toInt < 0 then 1 else 0) < 2 ^ 1 := by split <;> decide
  have hvalue := toInt_toInt32 value.toUInt32
  change value.toInt = _ at hvalue
  have hdouble : 2 ^ 1 * (value.toUInt32.toNat % 2 ^ (form.width - 1)) =
      (2 * value.toInt % form.span).toNat := by
    rw [hvalue]
    cases form <;> simp only [width, span] <;> split <;> omega
  rw [rotatedWord, UInt32.toNat_or, hsign, toNat_shiftLeft_and_rotatedMask,
    ← Nat.two_pow_add_eq_or_of_lt hsign_lt, hdouble, payload]

/-- A byte of a word. -/
theorem toUInt8_shiftRight {count : UInt32} (word : UInt32) (hcount : count.toNat < 32) :
    (word >>> count).toUInt8 = UInt8.ofNat (word.toNat / 2 ^ count.toNat) := by
  rw [← UInt8.toNat_inj, UInt32.toNat_toUInt8, UInt32.toNat_shiftRight, Nat.mod_eq_of_lt hcount,
    Nat.shiftRight_eq_div_pow, UInt8.toNat_ofNat']

/-- The bits of a mark stand above those of the payload in the first byte. -/
theorem mark_or_ofNat {mark : UInt8} {width high number : Nat}
    (hmark : mark.toNat = 2 ^ width * high) (hnumber : number < 2 ^ width) (hwidth : width ≤ 8) :
    mark ||| UInt8.ofNat number = UInt8.ofNat (mark.toNat + number) := by
  have hsmall : number % 2 ^ 8 = number :=
    Nat.mod_eq_of_lt (Nat.lt_of_lt_of_le hnumber (Nat.pow_le_pow_right Nat.two_pos hwidth))
  have hsum : (mark ||| UInt8.ofNat number).toNat = mark.toNat + number := by
    rw [UInt8.toNat_or, UInt8.toNat_ofNat', hsmall, hmark, ← Nat.two_pow_add_eq_or_of_lt hnumber]
  rw [← hsum, UInt8.ofNat_toNat]

/-- A byte is told by the lowest eight bits. -/
theorem ofNat_eq_of_mod_eq {number other : Nat} (h : number % 2 ^ 8 = other % 2 ^ 8) :
    UInt8.ofNat number = UInt8.ofNat other := by
  rw [← UInt8.toNat_inj, UInt8.toNat_ofNat', UInt8.toNat_ofNat', h]

/-- The bytes that are cut out of a word are those of the form. -/
theorem bytesOfWord_eq {form : Form} {payload : UInt32} (h : payload.toNat < form.span) :
    form.bytesOfWord payload = form.encode payload.toNat := by
  have hfirst : payload.toUInt8 = UInt8.ofNat payload.toNat := rfl
  have hsecond : (payload >>> 8).toUInt8 = UInt8.ofNat (payload.toNat / 0x100) :=
    toUInt8_shiftRight payload (by decide)
  have hthird : (payload >>> 16).toUInt8 = UInt8.ofNat (payload.toNat / 0x10000) :=
    toUInt8_shiftRight payload (by decide)
  have hfourth : (payload >>> 24).toUInt8 = UInt8.ofNat (payload.toNat / 0x1000000) :=
    toUInt8_shiftRight payload (by decide)
  cases form with
  | one =>
    change [payload.toUInt8] = [UInt8.ofNat (0 + payload.toNat)]
    rw [Nat.zero_add, hfirst]
  | two =>
    change payload.toNat < 0x4000 at h
    have hlead : (0x80 : UInt8) ||| UInt8.ofNat (payload.toNat / 0x100) =
        UInt8.ofNat (0x80 + payload.toNat / 0x100) :=
      @mark_or_ofNat 0x80 7 1 _ rfl (by omega) (by decide)
    change [_, _] =
      [UInt8.ofNat ((0x8000 + payload.toNat) / 256), UInt8.ofNat (0x8000 + payload.toNat)]
    rw [hsecond, hlead, hfirst, List.cons.injEq, List.cons.injEq]
    exact ⟨ofNat_eq_of_mod_eq (by omega), ofNat_eq_of_mod_eq (by omega), rfl⟩
  | four =>
    change payload.toNat < 0x20000000 at h
    have hlead : (0xC0 : UInt8) ||| UInt8.ofNat (payload.toNat / 0x1000000) =
        UInt8.ofNat (0xC0 + payload.toNat / 0x1000000) :=
      @mark_or_ofNat 0xC0 6 3 _ rfl (by omega) (by decide)
    change [_, _, _, _] =
      [UInt8.ofNat ((0xC0000000 + payload.toNat) / 256 / 256 / 256),
        UInt8.ofNat ((0xC0000000 + payload.toNat) / 256 / 256),
        UInt8.ofNat ((0xC0000000 + payload.toNat) / 256), UInt8.ofNat (0xC0000000 + payload.toNat)]
    rw [hfourth, hlead, hthird, hsecond, hfirst]
    simp only [List.cons.injEq, and_true]
    exact ⟨ofNat_eq_of_mod_eq (by omega), ofNat_eq_of_mod_eq (by omega),
      ofNat_eq_of_mod_eq (by omega), ofNat_eq_of_mod_eq (by omega)⟩

/-! ## Whole integers -/

/-- What is computed with words to read a signed integer, against the numbers. -/
structure ReadsExactly (form : Form) (bytes : List UInt8) : Prop where
  /-- No bit is shifted out of the word. -/
  shifted : (wordOfBytes bytes).toNat = BigEndian.value bytes
  /-- The payload is what is left of the number. -/
  masked : (form.payloadWord bytes).toNat = BigEndian.value bytes % form.span
  /-- Half of the payload is not taken for a negative number. -/
  halved : (magnitude (form.payloadWord bytes)).toInt = ((form.payloadWord bytes).toNat / 2 : Nat)
  /-- The bias can be subtracted from it. -/
  biased : (magnitude (form.payloadWord bytes)).toBitVec.ssubOverflow form.bias.toBitVec = false
  /-- The result is the signed integer of the payload. -/
  result : (form.signedWord (form.payloadWord bytes)).toInt =
    form.signed (BigEndian.value bytes % form.span)

/-- What is computed with words to write a signed integer, against the numbers. -/
structure WritesExactly (form : Form) (value : Int32) : Prop where
  /-- Nothing but copies of the sign is shifted out of the word. -/
  doubled : (value.toUInt32 <<< 1).toInt32.toInt = 2 * value.toInt
  /-- The mask and the sign make the payload. -/
  rotated : (form.rotatedWord value).toNat = form.payload value.toInt
  /-- The bytes of the payload are cut out of the word. -/
  result : form.bytesOfWord (form.rotatedWord value) = form.encode (form.payload value.toInt)

/-- No step of reading with words of 32 bits overflows. -/
theorem readsExactly {form : Form} {bytes : List UInt8} (h : bytes.length = form.size) :
    form.ReadsExactly bytes := by
  have hsize : bytes.length ≤ 4 := by
    rw [h]
    cases form <;> decide
  have hshifted := toNat_wordOfBytes hsize
  have hmasked : (form.payloadWord bytes).toNat = BigEndian.value bytes % form.span := by
    rw [payloadWord, toNat_and_mask, hshifted]
  exact ⟨hshifted, hmasked, toInt_magnitude _, ssubOverflow_magnitude_bias form _,
    by rw [toInt_signedWord, hmasked]⟩

/-- No step of writing with words of 32 bits overflows. -/
theorem writesExactly {form : Form} {value : Int32} (h : form.Reaches value.toInt) :
    form.WritesExactly value := by
  have hrotated := form.toNat_rotatedWord value
  have hlt : (form.rotatedWord value).toNat < form.span := hrotated ▸ payload_lt h
  exact ⟨toInt_shiftLeft_one h, hrotated, by rw [bytesOfWord_eq hlt, hrotated]⟩

end Form

end CompressedInt

end SignatureBlob
