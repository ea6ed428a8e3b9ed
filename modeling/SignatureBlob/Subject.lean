import SignatureBlob.Signature.Decode

/-!
# Subjects

What a blob can be asked for at one go is a signature of some kind or a bare type.

Main definition: `Subject.read`.
-/

namespace SignatureBlob

/-- What a blob can be asked for. -/
inductive SubjectKind where
  /-- A signature of a kind. -/
  | signature (kind : SignatureKind)
  /-- A type that stands alone. -/
  | type
deriving DecidableEq, Repr

/-- What is read at one go. -/
inductive Subject where
  | signature (signature : Signature)
  | type (type : TypeSig)
deriving DecidableEq, Repr

namespace Subject

/-- The largest depth of the types of the subject. -/
def depth : Subject → Nat
  | signature whole => whole.depth
  | type single => single.depth

/-- A subject of a kind. Strict decoding refuses bytes behind a signature, but never behind a bare
type. -/
def decode (options : DecodeOptions) : SubjectKind → Decoder Subject
  | .signature kind => return signature (← Signature.decode options kind)
  | .type => return type (← TypeSig.decode options)

/-- What a blob is read as from its start. -/
def read (options : DecodeOptions) (kind : SubjectKind) (blob : List UInt8) : Outcome Subject :=
  (decode options kind).run (.start blob)

end Subject

end SignatureBlob
