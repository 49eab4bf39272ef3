import Cryptoki.CodeText

/-!
# `Cryptoki.Mechanism` — the operations a token can be asked for

A mechanism is a number. Thirteen of them are known by name; a token may have others.

## Contents
- `Mechanism` and its named values, usable as patterns.
- `Mechanism.name?`, `Mechanism.text` — how a mechanism is shown.
-/

namespace Cryptoki

/-- A token mechanism, by its number. -/
structure Mechanism where
  code : Nat
deriving DecidableEq, Repr

namespace Mechanism

/-- RSA over a payload, padded by the token. -/
@[match_pattern] def rsaPkcs : Mechanism := ⟨0x0001⟩

/-- RSA over a whole block, padded by the caller. -/
@[match_pattern] def rsaX509 : Mechanism := ⟨0x0003⟩

/-- MD2 and padded RSA, both by the token. -/
@[match_pattern] def md2RsaPkcs : Mechanism := ⟨0x0004⟩

/-- MD5 and padded RSA, both by the token. -/
@[match_pattern] def md5RsaPkcs : Mechanism := ⟨0x0005⟩

/-- SHA-1 and padded RSA, both by the token. -/
@[match_pattern] def sha1RsaPkcs : Mechanism := ⟨0x0006⟩

/-- DSA over a digest the caller supplies. -/
@[match_pattern] def dsa : Mechanism := ⟨0x0011⟩

/-- SHA-1 and DSA, both by the token. -/
@[match_pattern] def dsaSha1 : Mechanism := ⟨0x0012⟩

/-- SHA-256 and padded RSA, both by the token. -/
@[match_pattern] def sha256RsaPkcs : Mechanism := ⟨0x0040⟩

/-- SHA-384 and padded RSA, both by the token. -/
@[match_pattern] def sha384RsaPkcs : Mechanism := ⟨0x0041⟩

/-- SHA-512 and padded RSA, both by the token. -/
@[match_pattern] def sha512RsaPkcs : Mechanism := ⟨0x0042⟩

/-- SHA-224 and padded RSA, both by the token. -/
@[match_pattern] def sha224RsaPkcs : Mechanism := ⟨0x0046⟩

/-- ECDSA over a digest the caller supplies. -/
@[match_pattern] def ecdsa : Mechanism := ⟨0x1041⟩

/-- SHA-1 and ECDSA, both by the token. -/
@[match_pattern] def ecdsaSha1 : Mechanism := ⟨0x1042⟩

/-- The name of a known mechanism. -/
def name? : Mechanism → Option String
  | rsaPkcs => some "CKM_RSA_PKCS"
  | rsaX509 => some "CKM_RSA_X_509"
  | md2RsaPkcs => some "CKM_MD2_RSA_PKCS"
  | md5RsaPkcs => some "CKM_MD5_RSA_PKCS"
  | sha1RsaPkcs => some "CKM_SHA1_RSA_PKCS"
  | dsa => some "CKM_DSA"
  | dsaSha1 => some "CKM_DSA_SHA1"
  | sha256RsaPkcs => some "CKM_SHA256_RSA_PKCS"
  | sha384RsaPkcs => some "CKM_SHA384_RSA_PKCS"
  | sha512RsaPkcs => some "CKM_SHA512_RSA_PKCS"
  | sha224RsaPkcs => some "CKM_SHA224_RSA_PKCS"
  | ecdsa => some "CKM_ECDSA"
  | ecdsaSha1 => some "CKM_ECDSA_SHA1"
  | _ => none

/-- The name of a known mechanism, the number of any other. -/
def text (m : Mechanism) : String := m.name?.getD (codeText m.code)

end Mechanism

end Cryptoki
