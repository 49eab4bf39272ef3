import Cryptoki.Digest.Algorithm
import Cryptoki.Key

/-!
# `Cryptoki.SignatureAlgorithm` — signature algorithms by name

## Contents
- `SignatureAlgorithm` — a digest, or none, together with a family of keys.
- `SignatureAlgorithm.name`, `SignatureAlgorithm.ofName?` — their names, two of them with an alias.
- `SignatureAlgorithm.family`, `SignatureAlgorithm.digest` — the two parts.
-/

namespace Cryptoki

/-- A named signature algorithm. -/
inductive SignatureAlgorithm
  | noneWithDsa
  | sha1WithDsa
  | md2WithRsa
  | md5WithRsa
  | sha1WithRsa
  | sha224WithRsa
  | sha256WithRsa
  | sha384WithRsa
  | sha512WithRsa
  | noneWithEcdsa
  | sha1WithEcdsa
  | sha224WithEcdsa
  | sha256WithEcdsa
  | sha384WithEcdsa
  | sha512WithEcdsa
deriving DecidableEq, Repr

namespace SignatureAlgorithm

/-- Every algorithm. -/
def all : List SignatureAlgorithm :=
  [noneWithDsa, sha1WithDsa, md2WithRsa, md5WithRsa, sha1WithRsa, sha224WithRsa, sha256WithRsa,
    sha384WithRsa, sha512WithRsa, noneWithEcdsa, sha1WithEcdsa, sha224WithEcdsa, sha256WithEcdsa,
    sha384WithEcdsa, sha512WithEcdsa]

/-- The name an algorithm is shown by. -/
def name : SignatureAlgorithm → String
  | noneWithDsa => "NONEwithDSA"
  | sha1WithDsa => "SHA1withDSA"
  | md2WithRsa => "MD2withRSA"
  | md5WithRsa => "MD5withRSA"
  | sha1WithRsa => "SHA1withRSA"
  | sha224WithRsa => "SHA224withRSA"
  | sha256WithRsa => "SHA256withRSA"
  | sha384WithRsa => "SHA384withRSA"
  | sha512WithRsa => "SHA512withRSA"
  | noneWithEcdsa => "NONEwithECDSA"
  | sha1WithEcdsa => "SHA1withECDSA"
  | sha224WithEcdsa => "SHA224withECDSA"
  | sha256WithEcdsa => "SHA256withECDSA"
  | sha384WithEcdsa => "SHA384withECDSA"
  | sha512WithEcdsa => "SHA512withECDSA"

/-- The names an algorithm is accepted by, its own first. -/
def names : SignatureAlgorithm → List String
  | noneWithDsa => [noneWithDsa.name, "RawDSA"]
  | sha1WithDsa => [sha1WithDsa.name, "DSA"]
  | a => [a.name]

/-- The algorithm that goes by a name. -/
def ofName? (s : String) : Option SignatureAlgorithm := all.find? (·.names.contains s)

/-- The keys the algorithm signs with. -/
def family : SignatureAlgorithm → KeyFamily
  | noneWithDsa | sha1WithDsa => .dsa
  | md2WithRsa | md5WithRsa | sha1WithRsa | sha224WithRsa | sha256WithRsa | sha384WithRsa
  | sha512WithRsa => .rsa
  | noneWithEcdsa | sha1WithEcdsa | sha224WithEcdsa | sha256WithEcdsa | sha384WithEcdsa
  | sha512WithEcdsa => .ec

/-- The digest the algorithm signs, unless it signs data as given. -/
def digest : SignatureAlgorithm → Option DigestAlgorithm
  | noneWithDsa | noneWithEcdsa => none
  | md2WithRsa => some .md2
  | md5WithRsa => some .md5
  | sha1WithDsa | sha1WithRsa | sha1WithEcdsa => some .sha1
  | sha224WithRsa | sha224WithEcdsa => some .sha224
  | sha256WithRsa | sha256WithEcdsa => some .sha256
  | sha384WithRsa | sha384WithEcdsa => some .sha384
  | sha512WithRsa | sha512WithEcdsa => some .sha512

end SignatureAlgorithm

end Cryptoki
