import Cryptoki.Ecdsa
import Cryptoki.Rsa

/-!
# `Cryptoki.KeyOperations` — what a token needs of its key algorithms

A token is built on four functions of key, payload and signature. Nothing about it depends on how
they compute.

## Contents
- `KeyOperations` — the four functions.
- `KeyOperations.standard` — RSA, and ECDSA on `secp256k1`.
-/

namespace Cryptoki

/-- Signing and verifying with the keys themselves. -/
structure KeyOperations where
  /-- The RSA signature of a payload. -/
  rsaSign : (k : Rsa.PrivateKey) → Bytes → Option (SizedBytes k.size)
  /-- Whether an RSA signature is one of the payload. -/
  rsaVerify : (k : Rsa.PublicKey) → Bytes → SizedBytes k.size → Bool
  /-- The ECDSA signature of some data. -/
  ecdsaSign : Ecdsa.SecretKey → Bytes → Option (SizedBytes Ecdsa.signatureWidth)
  /-- Whether an ECDSA signature is one of the data. -/
  ecdsaVerify : Ecdsa.PublicKey → Bytes → SizedBytes Ecdsa.signatureWidth → Bool

/-- RSA, and ECDSA on `secp256k1`. -/
def KeyOperations.standard : KeyOperations where
  rsaSign := Rsa.sign
  rsaVerify := Rsa.verify
  ecdsaSign := Ecdsa.sign
  ecdsaVerify := Ecdsa.verify

end Cryptoki
