/-!
# `Cryptoki.Digest.Algorithm` — the message digests signatures are made over

## Contents
- `DigestAlgorithm` — MD2, MD5, SHA-1 and four members of the SHA-2 family.
- `DigestAlgorithm.name`, `DigestAlgorithm.ofName?` — the names they go by.
- `DigestAlgorithm.outputLength` — the size of a digest in bytes.
- `DigestAlgorithm.oid` — the object identifier, as its list of arcs.
-/

namespace Cryptoki

/-- A message digest algorithm. -/
inductive DigestAlgorithm
  | md2
  | md5
  | sha1
  | sha224
  | sha256
  | sha384
  | sha512
deriving DecidableEq, Repr

namespace DigestAlgorithm

/-- Every algorithm, oldest first. -/
def all : List DigestAlgorithm := [md2, md5, sha1, sha224, sha256, sha384, sha512]

/-- The usual name. -/
def name : DigestAlgorithm → String
  | md2 => "MD2"
  | md5 => "MD5"
  | sha1 => "SHA-1"
  | sha224 => "SHA-224"
  | sha256 => "SHA-256"
  | sha384 => "SHA-384"
  | sha512 => "SHA-512"

/-- The algorithm that goes by a name. -/
def ofName? (s : String) : Option DigestAlgorithm := all.find? (·.name == s)

/-- The size of a digest in bytes. -/
def outputLength : DigestAlgorithm → Nat
  | md2 | md5 => 16
  | sha1 => 20
  | sha224 => 28
  | sha256 => 32
  | sha384 => 48
  | sha512 => 64

/-- The object identifier, arc by arc. -/
def oid : DigestAlgorithm → List Nat
  | md2 => [1, 2, 840, 113549, 2, 2]
  | md5 => [1, 2, 840, 113549, 2, 5]
  | sha1 => [1, 3, 14, 3, 2, 26]
  | sha224 => [2, 16, 840, 1, 101, 3, 4, 2, 4]
  | sha256 => [2, 16, 840, 1, 101, 3, 4, 2, 1]
  | sha384 => [2, 16, 840, 1, 101, 3, 4, 2, 2]
  | sha512 => [2, 16, 840, 1, 101, 3, 4, 2, 3]

/-- An object identifier in its dotted form. -/
def dotted (arcs : List Nat) : String := ".".intercalate (arcs.map fun a => toString a)

end DigestAlgorithm

end Cryptoki
