import SignatureBlob.TypeSig.Encode

/-!
# Writing into a buffer

A buffer is written at its end only, and one buffer can take several values. Each writer knows the
buffer as it stands: what cannot be written is reported at the end of what is in it, and stays
unwritten, while the bytes before it stay.

Main definitions: `Write` (what is done with a buffer), `TypeSig.write` and `Write.answers` (one
buffer for several values).
-/

namespace SignatureBlob

/-- What is done with a buffer. What is written stays in it on failure too. -/
abbrev Write := ExceptT Error (StateM (List UInt8))

namespace Write

variable {α β : Type}

/-! ## Sequences -/

/-- Behind what was written comes what is written next. -/
theorem run_bind_ok {write : Write α} {buffer after : List UInt8} {value : α}
    (h : write buffer = (.ok value, after)) (next : α → Write β) :
    (write >>= next) buffer = next value after := by
  simp only [bind, ExceptT.bind, ExceptT.mk, StateT.bind, h, ExceptT.bindCont]

/-- Nothing is written behind a failure. -/
theorem run_bind_error {write : Write α} {buffer after : List UInt8} {error : Error}
    (h : write buffer = (.error error, after)) (next : α → Write β) :
    (write >>= next) buffer = (.error error, after) := by
  simp only [bind, ExceptT.bind, ExceptT.mk, StateT.bind, h, ExceptT.bindCont]
  rfl

/-! ## Writing and refusing -/

/-- Bytes at the end of the buffer. -/
def push (bytes : List UInt8) : Write Unit := fun buffer => (.ok (), buffer ++ bytes)

/-- Nothing, since what was to be written at the end of the buffer has no encoding. -/
def reject (observed : UInt8) (defect : Defect) : Write Unit := fun buffer =>
  (.error (.invalidEncoding buffer.length observed defect), buffer)

/-- What is written goes to the end of the buffer, one after the other. -/
instance : Writer (Write Unit) where
  append first second := first >>= fun _ => second
  empty := pure ()
  ofBytes := push
  fail := reject

end Write

/-! ## Numbers, tokens and types -/

/-- An unsigned integer in its shortest form. -/
abbrev CompressedInt.writeUnsigned (value : Nat) : Write Unit := putUnsigned value

/-- A signed integer in its shortest form. -/
abbrev CompressedInt.writeSigned (value : Int) : Write Unit := putSigned value

/-- A token in its coded form. -/
abbrev CodedToken.write (token : Token) : Write Unit := put token

/-- A type. -/
abbrev TypeSig.write (type : TypeSig) : Write Unit := type.put

/-- What several writers answer that share a buffer, and the buffer as each of them leaves it. What
was written before a failure stays, and the next one writes behind it. -/
def Write.answers : List (Write Unit) → List UInt8 → List (Except Error Unit × List UInt8)
  | [], _ => []
  | write :: writes, buffer =>
    let answer := write buffer
    answer :: answers writes answer.2

end SignatureBlob
