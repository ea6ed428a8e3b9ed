import SignatureBlob.Signature
import SignatureBlob.TypeSig.Decode

/-!
# Reading signatures

Each kind of signature by its rule. Strict decoding also refuses bytes behind the signature, but
only behind a whole signature and never inside a function pointer.
-/

namespace SignatureBlob

namespace Decoder

/-- The end of the blob, in strict decoding; nothing otherwise. -/
def finish (options : DecodeOptions) : Decoder Unit := ⟨fun start =>
  match start.ahead with
  | [] => .ok () start
  | next :: _ =>
    if options.strict then
      .error (.invalidEncoding start.position next (.trailing start.remaining)) start
    else .ok () start⟩

/-- A value that takes a whole blob. -/
def whole {α : Type} (options : DecodeOptions) (decoder : Decoder α) : Decoder α := do
  let value ← decoder
  finish options
  return value

end Decoder

/-- A method signature. -/
def MethodSig.decode (options : DecodeOptions) : Decoder MethodSig :=
  (decodeWith (TypeSig.decode options)).whole options

namespace Signature

/-- The lead byte of a kind that has one. -/
def decodeLead (kind : SignatureKind) : Decoder UInt8 := do
  let offset ← .position
  let lead ← .byte
  if kind.leads.contains lead then return lead
  else .refuse offset lead (.wrongLead kind)

end Signature

namespace Reader

variable {m : Type → Type} [Reader m] (inner : m TypeSig)

/-- The type of a property and the parameters, the number of which has just been read. -/
def typeAndParams (count : Nat) : m (TypeSig × List TypeSig) := do
  let type ← inner
  let params ← list inner count
  return (type, params)

/-- A signature of a kind, whose types are read by `inner`. -/
def signature : SignatureKind → m Signature
  | .method => return .method (← method inner)
  | .field => do
    let _ ← Signature.decodeLead .field
    return .field (← inner)
  | .property => do
    let lead ← Signature.decodeLead .property
    let count ← CompressedInt.decodeUnsigned
    let (type, params) ← tally (typeAndParams inner count) count fun found => found.2.length
    return .property (HeaderBit.isSet HeaderBit.hasThis lead) type params
  | .locals => do
    let _ ← Signature.decodeLead .locals
    return .locals (← nonempty inner .noLocals)
  | .typeSpec => return .typeSpec (← inner)
  | .methodSpec => do
    let _ ← Signature.decodeLead .methodSpec
    return .methodSpec (← nonempty inner .noMethodArguments)

end Reader

namespace Signature

/-- A signature of a kind, whose types are read by `inner`. -/
abbrev decodeWith (inner : Decoder TypeSig) (kind : SignatureKind) : Decoder Signature :=
  Reader.signature inner kind

/-- A signature of a kind. -/
def decode (options : DecodeOptions) (kind : SignatureKind) : Decoder Signature :=
  (decodeWith (TypeSig.decode options) kind).whole options

/-- A signature of the method kind is a method signature. -/
theorem run_decode_method (options : DecodeOptions) (start : Cursor) :
    (decode options .method).run start = ((MethodSig.decode options).run start).map .method := by
  unfold decode MethodSig.decode Decoder.whole
  cases h : (MethodSig.decodeWith (TypeSig.decode options)).run start with
  | error cause stop =>
    have hmethod : (decodeWith (TypeSig.decode options) .method).run start = .error cause stop :=
      Decoder.run_bind_error h _
    rw [Decoder.run_bind_error h, Decoder.run_bind_error hmethod]
    rfl
  | ok method stop =>
    have hmethod : (decodeWith (TypeSig.decode options) .method).run start =
        .ok (.method method) stop := Decoder.run_bind_ok h _
    rw [Decoder.run_bind_ok h, Decoder.run_bind_ok hmethod]
    cases hfinish : (Decoder.finish options).run stop with
    | error cause place => rw [Decoder.run_bind_error hfinish, Decoder.run_bind_error hfinish]; rfl
    | ok _ place => rw [Decoder.run_bind_ok hfinish, Decoder.run_bind_ok hfinish]; rfl

end Signature

end SignatureBlob
