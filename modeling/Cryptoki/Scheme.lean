import Cryptoki.Mechanism
import Cryptoki.SignatureAlgorithm

/-!
# `Cryptoki.Scheme` — who does what when an algorithm runs on a mechanism

A mechanism that digests implements one algorithm from end to end, and takes the message as it
comes. The other mechanisms take a digest, or raw data of a bounded length, that is gathered on this
side first.

## Contents
- `LengthRule`, `Processing` — how the message reaches the token.
- `Scheme` — an algorithm on a mechanism, with its processing.
- `Scheme.resolve` — the pairs there are; `UnsupportedScheme` for all others.
- `Scheme.wrappedDigest`, `Scheme.padsHere`, `Scheme.hasPairSignatures`,
  `Scheme.expectedLength` — what is left to do on this side.
-/

namespace Cryptoki

/-- The only length of raw DSA input, that of a SHA-1 digest. -/
def rawDsaLength : Nat := 20

/-- The largest length of raw ECDSA input. -/
def rawEcdsaMax : Nat := 128

/-- The length of a DSA signature as the token returns it. -/
def dsaSignatureLength : Nat := 40

/-- The lengths allowed for raw input. -/
inductive LengthRule
  /-- This length and no other. -/
  | exact (length : Nat)
  /-- At most this length. -/
  | atMost (length : Nat)
deriving DecidableEq, Repr

namespace LengthRule

/-- The bytes needed to hold input of an allowed length. -/
def capacity : LengthRule → Nat
  | exact n | atMost n => n

/-- Whether input of `n` bytes is allowed. -/
def Allows : LengthRule → Nat → Prop
  | exact length, n => n = length
  | atMost length, n => n ≤ length

instance (rule : LengthRule) (n : Nat) : Decidable (rule.Allows n) := by
  cases rule <;> unfold Allows <;> infer_instance

end LengthRule

/-- How the message reaches the token. -/
inductive Processing
  /-- Digested here; the token gets the digest. -/
  | digestHere (digest : DigestAlgorithm)
  /-- Passed on piece by piece. -/
  | stream
  /-- Gathered here, and given to the token as it is. -/
  | raw (rule : LengthRule)
deriving DecidableEq, Repr

/-- A name, or a name on a mechanism, that nothing is known to do. -/
inductive UnsupportedScheme
  /-- No algorithm goes by this name. -/
  | unknownName (name : String)
  /-- The mechanism cannot do what goes by this name. -/
  | unknownPair (name : String) (mechanism : Mechanism)
deriving DecidableEq, Repr

/-- What is not supported, in words. -/
def UnsupportedScheme.text : UnsupportedScheme → String
  | .unknownName name => name
  | .unknownPair name mechanism => name ++ " with " ++ mechanism.text

/-- An algorithm on a mechanism. -/
structure Scheme where
  algorithm : SignatureAlgorithm
  mechanism : Mechanism
  processing : Processing
deriving DecidableEq, Repr

namespace Scheme

/-- The algorithm that a digesting mechanism implements from end to end. -/
def streamed? : Mechanism → Option SignatureAlgorithm
  | .md2RsaPkcs => some .md2WithRsa
  | .md5RsaPkcs => some .md5WithRsa
  | .sha1RsaPkcs => some .sha1WithRsa
  | .sha224RsaPkcs => some .sha224WithRsa
  | .sha256RsaPkcs => some .sha256WithRsa
  | .sha384RsaPkcs => some .sha384WithRsa
  | .sha512RsaPkcs => some .sha512WithRsa
  | .dsaSha1 => some .sha1WithDsa
  | .ecdsaSha1 => some .sha1WithEcdsa
  | _ => none

/-- How a mechanism that does not digest is used, by keys and digest of the algorithm. -/
def gathered? : Mechanism → KeyFamily → Option DigestAlgorithm → Option Processing
  | .dsa, .dsa, none => some (.raw (.exact rawDsaLength))
  | .dsa, .dsa, some digest => some (.digestHere digest)
  | .ecdsa, .ec, none => some (.raw (.atMost rawEcdsaMax))
  | .ecdsa, .ec, some digest => some (.digestHere digest)
  | .rsaPkcs, .rsa, some digest => some (.digestHere digest)
  | .rsaX509, .rsa, some digest => some (.digestHere digest)
  | _, _, _ => none

/-- How an algorithm runs on a mechanism, if it does. -/
def processing? (algorithm : SignatureAlgorithm) (mechanism : Mechanism) : Option Processing :=
  match streamed? mechanism with
  | some streamed => if streamed = algorithm then some .stream else none
  | none => gathered? mechanism algorithm.family algorithm.digest

/-- The algorithm of a given name on a mechanism. -/
def resolve (name : String) (mechanism : Mechanism) :
    Except UnsupportedScheme Scheme :=
  match SignatureAlgorithm.ofName? name with
  | none => .error (.unknownName name)
  | some algorithm =>
    match processing? algorithm mechanism with
    | none => .error (.unknownPair name mechanism)
    | some processing => .ok ⟨algorithm, mechanism, processing⟩

variable (scheme : Scheme)

/-- The keys the algorithm signs with. -/
def family : KeyFamily := scheme.algorithm.family

/-- The digest that has to be wrapped on this side, with the name of its algorithm. -/
def wrappedDigest : Option DigestAlgorithm :=
  match scheme.family, scheme.processing with
  | .rsa, .digestHere digest => some digest
  | _, _ => none

/-- Whether the block has to be padded on this side. -/
def padsHere : Bool := scheme.mechanism = .rsaX509

/-- Whether the token returns two numbers, which callers see encoded. -/
def hasPairSignatures : Bool := scheme.family ≠ .rsa

/-- The length of a streamed signature, as far as it is known in advance. -/
def expectedLength : Nat := if scheme.family = .dsa then dsaSignatureLength else 0

/-- The algorithm and the mechanism, in words. -/
def text : String := scheme.algorithm.name ++ " on " ++ scheme.mechanism.text

end Scheme

end Cryptoki
