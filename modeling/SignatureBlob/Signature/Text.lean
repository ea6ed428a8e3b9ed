import SignatureBlob.Signature
import SignatureBlob.TypeSig.Text

/-!
# Signatures as text

The text of a signature in the manner of assembler source.
-/

namespace SignatureBlob

/-- The method as text; no name stands before its parameters. -/
def MethodSig.text (method : MethodSig) : String :=
  method.header.text "" method.result.text (TypeSig.texts method.params)

/-- The signature as text. -/
def Signature.text : Signature → String
  | method m => m.text
  | field type => "field " ++ type.text
  | property hasThis type params =>
    (if hasThis then "instance " else "") ++ type.text ++ " (" ++ commaList (TypeSig.texts params)
      ++ ")"
  | locals types => "locals (" ++ commaList (TypeSig.texts types) ++ ")"
  | typeSpec type => type.text
  | methodSpec args => "<" ++ commaList (TypeSig.texts args) ++ ">"

end SignatureBlob
