/-!
# Options of decoding

How deep types may be nested, and whether bytes may be left over behind a signature.
-/

namespace SignatureBlob

/-- What decoding admits. -/
structure DecodeOptions where
  /-- The number of types that may be nested in one another, the outermost counted. Zero counts as
  one. -/
  maxDepth : Nat := 100
  /-- Whether bytes behind a signature are refused. -/
  strict : Bool := false
deriving DecidableEq, Repr

/-- The number of types that may be nested in one another. -/
def DecodeOptions.limit (options : DecodeOptions) : Nat := max options.maxDepth 1

end SignatureBlob
