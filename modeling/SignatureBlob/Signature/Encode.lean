import SignatureBlob.Signature
import SignatureBlob.TypeSig.Encode

/-!
# Writing signatures

Each kind of signature behind its lead byte. Lists that must not be empty are refused if they are.
-/

namespace SignatureBlob.Signature

/-- A list of types behind a lead byte and in front of nothing else; it must not be empty. -/
def emitList (lead : UInt8) (listed : Listed) (ifEmpty : Defect) (types : List TypeSig) :
    Emission :=
  .byte lead
    ++ .require (!types.isEmpty) lead ifEmpty
    ++ CompressedInt.emitCount lead listed types.length
    ++ .concat (TypeSig.emitEach types)

/-- The lead byte of a property. -/
def propertyLead (hasThis : Bool) : UInt8 := 0x08 ||| HeaderBit.when HeaderBit.hasThis hasThis

/-- A signature as it is written. -/
def emit : Signature → Emission
  | method m => m.emit
  | field type => .byte 0x06 ++ type.emit
  | property hasThis type params =>
    .byte (propertyLead hasThis)
      ++ CompressedInt.emitCount (propertyLead hasThis) .parameters params.length
      ++ type.emit
      ++ .concat (TypeSig.emitEach params)
  | locals types => emitList 0x07 .locals .noLocals types
  | typeSpec type => type.emit
  | methodSpec args => emitList 0x0A .typeArguments .noMethodArguments args

/-- The blob of a signature. -/
def encode (signature : Signature) : Except Error (List UInt8) := signature.emit.toBlob

end SignatureBlob.Signature
