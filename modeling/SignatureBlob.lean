import SignatureBlob.Main
import SignatureBlob.Proofs.BatchCommand
import SignatureBlob.Proofs.CursorInvariant
import SignatureBlob.Proofs.DepthLimit
import SignatureBlob.Proofs.Frugality
import SignatureBlob.Proofs.JournalNotes
import SignatureBlob.Proofs.Leftover
import SignatureBlob.Proofs.Locality
import SignatureBlob.Proofs.NameReading
import SignatureBlob.Proofs.Placement
import SignatureBlob.Proofs.Sentinel
import SignatureBlob.Proofs.Strictness
import SignatureBlob.Proofs.TextLength
import SignatureBlob.Proofs.TokenCodec
import SignatureBlob.Signature.Encode
