import Cryptoki.Digest.Algorithm
import Cryptoki.EncodingError

/-!
# `Cryptoki.DigestInfo` — a digest together with the name of its algorithm

An RSA signature is made over a sequence of two: which algorithm computed the digest, with an
explicit NULL for its parameters, and the digest as an octet string.

## Contents
- `DigestInfo.algorithmIdentifier` — the first of the two.
- `DigestInfo.encode` — the whole.
- `DigestInfo.lengthFor`, `DigestInfo.standardLength` — its length, by that of the digest.
- `DigestInfo.announcedLength` — its length, told in advance.
-/

namespace Cryptoki.DigestInfo

/-- The algorithm's object identifier with NULL parameters. -/
def algorithmIdentifier (a : DigestAlgorithm) : Bytes :=
  Der.tlv Der.sequenceTag
    (Der.tlv Der.oidTag (Der.oidContent a.oid) ++ Der.tlv Der.nullTag [])

/-- The encoding of a digest of any length, with no bound on the whole. -/
def encoding (a : DigestAlgorithm) (digest : Bytes) : Bytes :=
  Der.tlv Der.sequenceTag (algorithmIdentifier a ++ Der.tlv Der.octetStringTag digest)

/-- The encoding of a digest of any length. -/
def encode (a : DigestAlgorithm) (digest : Bytes) : Except EncodingError Bytes :=
  (Der.bounded (encoding a digest)).mapError .der

/-- The length of the encoding of a digest of `n` bytes. -/
def lengthFor (a : DigestAlgorithm) (n : Nat) : Nat :=
  Der.tlvLength ((algorithmIdentifier a).length + Der.tlvLength n)

/-- The length of the encoding of a digest that the algorithm computed. -/
def standardLength (a : DigestAlgorithm) : Nat := lengthFor a a.outputLength

/-- The length of the encoding, told before there is a digest: that of as many zeros. -/
def announcedLength (a : DigestAlgorithm) : Except EncodingError Nat :=
  (encode a (List.replicate a.outputLength 0)).map List.length

theorem length_encoding (a : DigestAlgorithm) (digest : Bytes) :
    (encoding a digest).length = lengthFor a digest.length := by
  rw [encoding, Der.length_tlv, List.length_append, Der.length_tlv, lengthFor]

end Cryptoki.DigestInfo
