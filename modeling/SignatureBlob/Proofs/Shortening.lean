import SignatureBlob.Proofs.IntegerForms
import SignatureBlob.Proofs.Respelling

/-!
# Shortening

Where a value has any bytes it has bytes with shortest integers, and these are the same or fewer:
each integer is respelled in its shortest form and all else is kept.

Main statements: `TypeSig.Derives.exists_shortest` and `Signature.Derives.exists_shortest`.
-/

namespace SignatureBlob

open Grammar CompressedInt

namespace Grammar

/-- The same bytes, or fewer. -/
def Improves (better bytes : List UInt8) : Prop := better = bytes ∨ better.length < bytes.length

variable {better bytes better' bytes' : List UInt8}

/-- Better bytes are not more. -/
theorem Improves.length_le (h : Improves better bytes) : better.length ≤ bytes.length := by
  rcases h with rfl | hlt
  · exact Nat.le_refl _
  · exact Nat.le_of_lt hlt

/-- Where better bytes are as many, they are the same. -/
theorem Improves.length_eq_iff (h : Improves better bytes) :
    better.length = bytes.length ↔ better = bytes := by
  rcases h with rfl | hlt
  · simp
  · refine ⟨fun heq => absurd heq (Nat.ne_of_lt hlt), ?_⟩
    rintro rfl
    rfl

/-- The same with the bytes up to a place in a blob. -/
theorem Improves.length_take {blob : List UInt8} {place : Nat}
    (h : Improves better (blob.take place)) (hle : place ≤ blob.length) :
    better.length ≤ place ∧ (better.length = place ↔ better = blob.take place) := by
  have hlength : (blob.take place).length = place := List.length_take_of_le hle
  have hboth := And.intro h.length_le h.length_eq_iff
  rwa [hlength] at hboth

/-- What is saved in one part is not spent in another. -/
theorem Improves.append (h : Improves better bytes) (h' : Improves better' bytes') :
    Improves (better ++ better') (bytes ++ bytes') := by
  have hle := h.length_le
  have hle' := h'.length_le
  rcases h with rfl | hlt
  · rcases h' with rfl | hlt'
    · exact .inl rfl
    · refine .inr ?_
      rw [List.length_append, List.length_append]
      omega
  · refine .inr ?_
    rw [List.length_append, List.length_append]
    omega

/-- A form that is not the shortest takes more bytes. -/
theorem respelling_improves (latitude : Latitude) : Respelling Improves latitude .shortest where
  refl _ := .inl rfl
  append := Improves.append
  unsigned := by
    rintro value _ ⟨wide, _⟩
    obtain ⟨form, hform, hshorter⟩ := Form.exists_forUnsigned? wide
    refine ⟨_, .intro (Form.lt_span_of_forUnsigned? hform) hform, ?_⟩
    rcases hshorter with rfl | hlt
    · exact .inl rfl
    · refine .inr ?_
      rwa [Form.length_encode, Form.length_encode]
  signed := by
    rintro value _ ⟨wide, _⟩
    obtain ⟨form, hform, hshorter⟩ := Form.exists_forSigned? wide
    refine ⟨_, .intro (Form.reaches_of_forSigned? hform) hform, ?_⟩
    rcases hshorter with rfl | hlt
    · exact .inl rfl
    · refine .inr ?_
      rwa [Form.length_encode, Form.length_encode]

end Grammar

variable {latitude : Latitude} {bytes : List UInt8}

/-- The bytes of a type are its bytes with shortest integers, or there are such that are fewer. -/
theorem TypeSig.Derives.exists_shortest {type : TypeSig} (h : type.Derives latitude bytes) :
    ∃ better, type.Derives .shortest better ∧ Improves better bytes :=
  h.respell (respelling_improves latitude)

/-- The bytes of a signature are its bytes with shortest integers, or there are such that are
fewer. -/
theorem Signature.Derives.exists_shortest {signature : Signature}
    (h : signature.Derives latitude bytes) :
    ∃ better, signature.Derives .shortest better ∧ Improves better bytes :=
  h.respell (respelling_improves latitude)

end SignatureBlob
