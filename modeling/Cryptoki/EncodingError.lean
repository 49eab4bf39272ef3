import Cryptoki.Der

/-!
# `Cryptoki.EncodingError` — why data cannot be prepared for signing

## Contents
- `minPaddedSize` — the smallest block that is ever padded.
- `EncodingError`, `EncodingError.message` — the causes and their wording.
-/

namespace Cryptoki

/-- The smallest block that is ever padded, that of a modulus of 512 bits. -/
def minPaddedSize : Nat := 64

/-- Why data cannot be encoded or padded. -/
inductive EncodingError
  /-- A payload of `length` bytes where only `max` fit. -/
  | dataTooLong (length max : Nat)
  /-- A block of `size` bytes is too small to be padded. -/
  | paddedSizeTooSmall (size : Nat)
  /-- A block does not have the form of a padded one. -/
  | invalidPadding
  /-- A value has no encoding. -/
  | der (cause : Der.Error)
deriving DecidableEq, Repr

namespace EncodingError

/-- The cause in words. -/
def message : EncodingError → String
  | dataTooLong length max =>
    "Data too long for padding: " ++ toString length ++ " bytes, max " ++ toString max
  | paddedSizeTooSmall size =>
    "Padded size must be at least " ++ toString minPaddedSize ++ " bytes, got " ++ toString size
  | invalidPadding => "Invalid PKCS#1 padding"
  | der cause => "DER encoding failed: " ++ cause.message

end EncodingError

end Cryptoki
