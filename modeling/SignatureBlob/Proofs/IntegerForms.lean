import SignatureBlob.Proofs.Grammar

/-!
# Forms of integers

The bytes of a form tell the form and the payload, and nothing else has these bytes. An integer has
a shortest form exactly if it has any, and each other form that is wide enough takes more bytes.

Main statements: `Form.exists_encode_eq_cons` and `Form.encode_value_mod` (bytes of a form),
`Form.reaches_signed` and `Form.payload_signed` (payloads of signed integers), and
`Form.exists_forUnsigned?` and `Form.exists_forSigned?` (shortest forms).
-/

namespace SignatureBlob

/-! ## Big-endian numbers by their first byte -/

namespace BigEndian

/-- A number in front of bytes stands above them. -/
theorem foldl_eq (bytes : List UInt8) (number : Nat) :
    bytes.foldl (fun number byte => number * 256 + byte.toNat) number =
      number * span bytes.length + value bytes := by
  induction bytes generalizing number with
  | nil => simp [value, span]
  | cons byte bytes ih =>
    have hvalue : value (byte :: bytes) = byte.toNat * span bytes.length + value bytes := by
      rw [value, List.foldl_cons, ih, Nat.zero_mul, Nat.zero_add]
    rw [List.foldl_cons, ih, hvalue, List.length_cons, span, Nat.add_mul]
    ac_rfl

/-- The first byte stands above the others. -/
theorem value_cons (byte : UInt8) (bytes : List UInt8) :
    value (byte :: bytes) = byte.toNat * span bytes.length + value bytes := by
  rw [value, List.foldl_cons, foldl_eq, Nat.zero_mul, Nat.zero_add]

/-- Bytes have a number below their span. -/
theorem value_lt (bytes : List UInt8) : value bytes < span bytes.length := by
  induction bytes with
  | nil => simp [value, span]
  | cons byte bytes ih =>
    have hbyte := byte.toNat_lt
    rw [value_cons, List.length_cons, span]
    calc byte.toNat * span bytes.length + value bytes
      _ < byte.toNat * span bytes.length + span bytes.length := by omega
      _ = (byte.toNat + 1) * span bytes.length := by rw [Nat.add_mul, Nat.one_mul]
      _ ≤ 256 * span bytes.length := Nat.mul_le_mul_right _ (by omega)
      _ = span bytes.length * 256 := Nat.mul_comm _ _

end BigEndian

namespace CompressedInt.Form

/-! ## Bytes of a form -/

/-- Each form takes a byte at least. -/
theorem size_pos (form : Form) : 0 < form.size := by
  cases form <;> decide

/-- Each form has a payload at least. -/
theorem span_pos (form : Form) : 0 < form.span := by
  cases form <;> decide

/-- A payload takes the bytes of its form. -/
@[simp] theorem length_encode (form : Form) (payload : Nat) :
    (form.encode payload).length = form.size :=
  BigEndian.length_encode _ _

/-- The first byte of a form tells the form. -/
theorem exists_encode_eq_cons {form : Form} {payload : Nat} (h : payload < form.span) :
    ∃ lead rest, form.encode payload = lead :: rest ∧ ofLead? lead = some form := by
  cases form with
  | one =>
    refine ⟨_, _, rfl, ?_⟩
    simp only [span, mark, ofLead?, UInt8.toNat_ofNat'] at h ⊢
    rw [if_pos (by omega)]
  | two =>
    refine ⟨_, _, rfl, ?_⟩
    simp only [span, mark, ofLead?, UInt8.toNat_ofNat'] at h ⊢
    rw [if_neg (by omega), if_pos (by omega)]
  | four =>
    refine ⟨_, _, rfl, ?_⟩
    simp only [span, mark, ofLead?, UInt8.toNat_ofNat'] at h ⊢
    rw [if_neg (by omega), if_neg (by omega), if_pos (by omega)]

/-- No payload is written as no bytes. -/
theorem encode_ne_nil (form : Form) (payload : Nat) : form.encode payload ≠ [] := by
  intro h
  have hlength := form.length_encode payload
  have hpos := form.size_pos
  rw [h] at hlength
  exact absurd hlength (by rw [List.length_nil]; omega)

/-- The bytes of a form tell the payload. -/
theorem value_encode_mod {form : Form} {payload : Nat} (h : payload < form.span) :
    BigEndian.value (form.encode payload) % form.span = payload := by
  have hfits : form.mark + payload < BigEndian.span form.size := by
    cases form <;> simp only [span, mark, size, BigEndian.span] at h ⊢ <;> omega
  rw [encode, BigEndian.value_encode hfits]
  cases form <;> simp only [span, mark] at h ⊢ <;> omega

/-- Bytes of the length that their first one tells are the bytes of a form. -/
theorem encode_value_mod {form : Form} {lead : UInt8} {rest : List UInt8}
    (hlead : ofLead? lead = some form) (hlength : (lead :: rest).length = form.size) :
    form.encode (BigEndian.value (lead :: rest) % form.span) = lead :: rest := by
  have hbyte := lead.toNat_lt
  have hrest := BigEndian.value_lt rest
  have hmark : form.mark + BigEndian.value (lead :: rest) % form.span =
      BigEndian.value (lead :: rest) := by
    rw [BigEndian.value_cons]
    rw [List.length_cons] at hlength
    simp only [ofLead?] at hlead
    split at hlead
    · obtain rfl : one = form := Option.some.inj hlead
      have hzero : rest.length = 0 := Nat.succ.inj hlength
      simp only [hzero, span, mark, BigEndian.span] at hrest ⊢
      omega
    · split at hlead
      · obtain rfl : two = form := Option.some.inj hlead
        have hone : rest.length = 1 := Nat.succ.inj hlength
        simp only [hone, span, mark, BigEndian.span] at hrest ⊢
        omega
      · split at hlead
        · obtain rfl : four = form := Option.some.inj hlead
          have hthree : rest.length = 3 := Nat.succ.inj hlength
          simp only [hthree, span, mark, BigEndian.span] at hrest ⊢
          omega
        · cases hlead
  rw [encode, hmark, ← hlength, BigEndian.encode_value]

/-! ## Payloads of signed integers -/

/-- What a payload stands for is within reach of its form. -/
theorem reaches_signed {form : Form} {payload : Nat} (h : payload < form.span) :
    form.Reaches (form.signed payload) := by
  cases form <;> simp only [span, Reaches, signed] at h ⊢ <;> split <;> omega

/-- A payload comes back from the integer that it stands for. -/
theorem payload_signed {form : Form} {payload : Nat} (h : payload < form.span) :
    form.payload (form.signed payload) = payload := by
  cases form <;> simp only [span, signed, Form.payload] at h ⊢ <;> split <;> split <;> omega

/-! ## Shortest forms -/

/-- The form of four bytes is the widest. -/
theorem span_le_four (form : Form) : form.span ≤ four.span := by
  cases form <;> decide

/-- The widest form reaches what any form reaches. -/
theorem Reaches.four {form : Form} {value : Int} (h : form.Reaches value) :
    Form.four.Reaches value := by
  cases form <;> simp only [Reaches, span] at h ⊢ <;> omega

/-- The shortest form is wide enough. -/
theorem lt_span_of_forUnsigned? {form : Form} {value : Nat} (h : forUnsigned? value = some form) :
    value < form.span := by
  simp only [forUnsigned?] at h
  split at h
  · cases h
    assumption
  · split at h
    · cases h
      assumption
    · split at h
      · cases h
        assumption
      · cases h

/-- An unsigned integer that has a form has a shortest one, and that is the form or takes fewer
bytes. -/
theorem exists_forUnsigned? {form : Form} {value : Nat} (h : value < form.span) :
    ∃ best, forUnsigned? value = some best ∧ (best = form ∨ best.size < form.size) := by
  by_cases hone : value < one.span
  · refine ⟨one, by rw [forUnsigned?, if_pos hone], ?_⟩
    cases form <;> simp [size]
  by_cases htwo : value < two.span
  · refine ⟨two, by rw [forUnsigned?, if_neg hone, if_pos htwo], ?_⟩
    cases form with
    | one => exact absurd h hone
    | two | four => simp [size]
  · cases form with
    | one => exact absurd h hone
    | two => exact absurd h htwo
    | four => exact ⟨four, by rw [forUnsigned?, if_neg hone, if_neg htwo, if_pos h], .inl rfl⟩

/-- The shortest form reaches the integer. -/
theorem reaches_of_forSigned? {form : Form} {value : Int} (h : forSigned? value = some form) :
    form.Reaches value := by
  simp only [forSigned?] at h
  split at h
  · cases h
    assumption
  · split at h
    · cases h
      assumption
    · split at h
      · cases h
        assumption
      · cases h

/-- A signed integer that has a form has a shortest one, and that is the form or takes fewer
bytes. -/
theorem exists_forSigned? {form : Form} {value : Int} (h : form.Reaches value) :
    ∃ best, forSigned? value = some best ∧ (best = form ∨ best.size < form.size) := by
  by_cases hone : one.Reaches value
  · refine ⟨one, by rw [forSigned?, if_pos hone], ?_⟩
    cases form <;> simp [size]
  by_cases htwo : two.Reaches value
  · refine ⟨two, by rw [forSigned?, if_neg hone, if_pos htwo], ?_⟩
    cases form with
    | one => exact absurd h hone
    | two | four => simp [size]
  · cases form with
    | one => exact absurd h hone
    | two => exact absurd h htwo
    | four => exact ⟨four, by rw [forSigned?, if_neg hone, if_neg htwo, if_pos h], .inl rfl⟩

end CompressedInt.Form

/-- An unsigned integer takes a byte at least. -/
theorem CompressedInt.DerivesUnsigned.ne_nil {latitude : Grammar.Latitude} {value : Nat}
    {bytes : List UInt8} (h : DerivesUnsigned latitude value bytes) : bytes ≠ [] := by
  obtain ⟨wide, _⟩ := h
  exact Form.encode_ne_nil _ _

end SignatureBlob
