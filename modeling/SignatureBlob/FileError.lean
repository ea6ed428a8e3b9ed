/-!
# Errors of files

Why a file has no text: the system refuses it, or its bytes are not UTF-8.
-/

namespace SignatureBlob

/-- Why a file has no text. -/
inductive FileError where
  /-- A name of the path is not in its directory. -/
  | missing
  /-- The path goes on behind a file. -/
  | notDirectory
  /-- The path leads to a directory. -/
  | isDirectory
  /-- The file may not be read. -/
  | denied
  /-- The path or a name in it is too long. -/
  | nameTooLong
  /-- The bytes of the file are not UTF-8. -/
  | notText
  /-- Anything else, in words. -/
  | other (message : String)
deriving DecidableEq, Repr

/-- The error in words. -/
def FileError.message : FileError → String
  | missing => "No such file or directory (os error 2)"
  | notDirectory => "Not a directory (os error 20)"
  | isDirectory => "Is a directory (os error 21)"
  | denied => "Permission denied (os error 13)"
  | nameTooLong => "File name too long (os error 36)"
  | notText => "stream did not contain valid UTF-8"
  | other message => message

/-- The text of the bytes of a file. -/
def FileError.decodeText (bytes : List UInt8) : Except FileError String :=
  match String.fromUTF8? (ByteArray.mk bytes.toArray) with
  | some text => .ok text
  | none => .error notText

end SignatureBlob
