import Cryptoki.Der

/-!
# `Cryptoki.SignatureValue` — DSA and ECDSA signatures, as pairs of numbers

Tokens make and take such a signature as a block, two halves of equal width holding `r` and `s`.
Callers see a SEQUENCE of two INTEGERs.

## Contents
- `SignatureValue` — the pair, each number without leading zeros.
- `SignatureValue.ofBlock`, `SignatureValue.encode`, `SignatureValue.derOfBlock` — from a block to
  its encoding.
- `SignatureValue.decode?` — reading the encoding, and nothing else.
- `SignatureValue.dsaBlock`, `SignatureValue.ecdsaBlock` — from the encoding to a block.
-/

namespace Cryptoki

/-- The width of each half of a DSA block. -/
def dsaHalfWidth : Nat := 20

/-- Why a token's block is no signature. -/
inductive BlockError
  /-- `length` bytes cannot be split into two halves that hold something. -/
  | uneven (length : Nat)
  /-- The pair has no encoding. -/
  | der (cause : Der.Error)
deriving DecidableEq, Repr

/-- The cause in words. -/
def BlockError.message : BlockError → String
  | .uneven length => "r || s block of " ++ toString length ++ " bytes"
  | .der cause => cause.message

/-- Why bytes given as a signature cannot be handed to a token. -/
inductive DecodeError
  /-- Not a SEQUENCE of exactly two INTEGERs that are not negative. -/
  | malformed
  /-- A number of `length` bytes, where the token's field has `width`. -/
  | tooWide (length width : Nat)
deriving DecidableEq, Repr

/-- The cause in words. -/
def DecodeError.message : DecodeError → String
  | .malformed => "Invalid signature encoding"
  | .tooWide length width =>
    "Signature component is " ++ toString length ++ " bytes, field width is " ++ toString width

/-- A signature of two numbers, each without leading zeros. -/
structure SignatureValue where
  r : Bytes
  s : Bytes
deriving DecidableEq, Repr

namespace SignatureValue

/-! ## From a block to its encoding -/

/-- The numbers in the halves of a block. -/
def ofBlock (block : Bytes) : Except BlockError SignatureValue :=
  if block ≠ [] ∧ block.length % 2 = 0 then
    let half := block.length / 2
    .ok ⟨Bytes.magnitude (block.take half), Bytes.magnitude (block.drop half)⟩
  else .error (.uneven block.length)

/-- The SEQUENCE of the two INTEGERs, with no bound on the whole. -/
def encoding (v : SignatureValue) : Bytes :=
  Der.tlv Der.sequenceTag
    (Der.tlv Der.integerTag (Der.naturalContent v.r)
      ++ Der.tlv Der.integerTag (Der.naturalContent v.s))

/-- The SEQUENCE of the two INTEGERs. -/
def encode (v : SignatureValue) : Except Der.Error Bytes := Der.bounded v.encoding

/-- The encoding of the signature a token returned as a block. -/
def derOfBlock (block : Bytes) : Except BlockError Bytes := do
  let v ← ofBlock block
  v.encode.mapError .der

/-! ## From the encoding to a block -/

/-- One non-negative INTEGER off the front, and what follows it. -/
def readInteger (d : Bytes) : Option (Bytes × Bytes) := do
  let (content, rest) ← Der.readTlv Der.integerTag d
  let magnitude ← Der.readNatural content
  return (magnitude, rest)

/-- Reads exactly one SEQUENCE of exactly two INTEGERs that are not negative. -/
def decode? (d : Bytes) : Option SignatureValue := do
  guard (d.length ≤ Der.maxLength)
  let (content, rest) ← Der.readTlv Der.sequenceTag d
  guard rest.isEmpty
  let (r, content) ← readInteger content
  let (s, content) ← readInteger content
  guard content.isEmpty
  return ⟨r, s⟩

/-- A number in a field of the given width. -/
def field (width : Nat) (magnitude : Bytes) : Except DecodeError Bytes :=
  if magnitude.length ≤ width then .ok (Bytes.justifyRight width magnitude)
  else .error (.tooWide magnitude.length width)

/-- The block with halves of the given width. -/
def toBlock (width : Nat) (v : SignatureValue) : Except DecodeError Bytes := do
  let r ← field width v.r
  let s ← field width v.s
  return r ++ s

/-- The encoding read, or its being malformed. -/
def decode (d : Bytes) : Except DecodeError SignatureValue :=
  match decode? d with
  | some v => .ok v
  | none => .error .malformed

/-- The forty bytes a token takes as a DSA signature. -/
def dsaBlock (d : Bytes) : Except DecodeError Bytes := do
  (← decode d).toBlock dsaHalfWidth

/-- The bytes a token takes as an ECDSA signature: both halves as wide as the longer number. -/
def ecdsaBlock (d : Bytes) : Except DecodeError Bytes := do
  let v ← decode d
  v.toBlock (max v.r.length v.s.length)

end SignatureValue

end Cryptoki
