import Cryptoki.BlockPadding
import Cryptoki.Modular

/-!
# `Cryptoki.Rsa` — RSA signatures over padded payloads

A signature is the padded payload, read as a number, to the power of the private exponent; it
verifies if its power to the public exponent is that number again. The private power is taken modulo
each factor of the modulus and combined, which gives the power modulo the modulus if the factors
are primes, no two of them the same; a key may have other factors, and then there may be no
signature.

## Contents
- `Rsa.PublicKey`, `Rsa.product`, `Rsa.PrivateKey` — keys, and their size in bytes.
- `Rsa.PrivateKey.ofNumbers?` — the numbers that make a private key.
- `Rsa.combinedPower?`, `Rsa.PrivateKey.power` — the private power.
- `Rsa.block` — the padded payload.
- `Rsa.sign`, `Rsa.verify` — signatures.
-/

namespace Cryptoki.Rsa

/-- The public half of a key. -/
structure PublicKey where
  modulus : Nat
  publicExponent : Nat
deriving DecidableEq, Repr

/-- The product of factors. -/
def product : List Nat → Nat
  | [] => 1
  | p :: factors => p * product factors

/-- The private half of a key, which the public one is part of. -/
structure PrivateKey extends PublicKey where
  privateExponent : Nat
  /-- The factors of the modulus. -/
  factors : List Nat
  one_lt : ∀ p ∈ factors, 1 < p
  product_eq : product factors = modulus
  /-- The exponents undo each other modulo each factor that is a prime. -/
  exponents : ∀ p ∈ factors, publicExponent * privateExponent % (p - 1) = 1
deriving DecidableEq, Repr

/-- The size of the modulus in bytes. -/
def PublicKey.size (k : PublicKey) : Nat := (Bytes.natBits k.modulus + 7) / 8

/-- The number below the product of the factors that leaves, modulo each of them, the power of `m`
to the exponent modulo one less than the factor. Factors that have a factor in common cannot be
combined. -/
def combinedPower? (m exponent : Nat) : List Nat → Option Nat
  | [] => some 0
  | p :: factors => do
    let rest ← combinedPower? m exponent factors
    combineResidues? p (product factors) (modPow p m (exponent % (p - 1))) rest

namespace PrivateKey

/-- The private key with a public half, a private exponent and two factors, if they fit together. -/
def ofNumbers? (k : PublicKey) (privateExponent p q : Nat) : Option PrivateKey :=
  if h : (∀ r ∈ [p, q], 1 < r) ∧ product [p, q] = k.modulus
      ∧ ∀ r ∈ [p, q], k.publicExponent * privateExponent % (r - 1) = 1 then
    some
      { k with
        privateExponent
        factors := [p, q]
        one_lt := h.1
        product_eq := h.2.1
        exponents := h.2.2 }
  else none

/-- The private power of a number: its powers modulo the factors, combined. Factors that cannot be
combined are left aside. -/
def power (k : PrivateKey) (m : Nat) : Nat :=
  match combinedPower? m k.privateExponent k.factors with
  | some s => s
  | none => modPow k.modulus m k.privateExponent

end PrivateKey

/-- A payload padded to `size` bytes, if it leaves room for the padding. -/
def block (size : Nat) (payload : Bytes) : Option Bytes :=
  if payload.length + paddingOverhead ≤ size then some (BlockPadding.block size payload) else none

/-- The signature of a payload. It is checked before it is given away, as factors that are no primes
may have led to another number. -/
def sign (k : PrivateKey) (payload : Bytes) : Option (SizedBytes k.size) := do
  let m := Bytes.toNat (← block k.size payload)
  guard (m < k.modulus)
  let s := k.power m
  guard (modPow k.modulus s k.publicExponent = m)
  return Bytes.sizedOfNat k.size s

/-- Whether a signature is one of the payload. -/
def verify (k : PublicKey) (payload : Bytes) (signature : SizedBytes k.size) : Bool :=
  let s := Bytes.toNat signature.val
  match block k.size payload with
  | some b => s < k.modulus && modPow k.modulus s k.publicExponent == Bytes.toNat b
  | none => false

end Cryptoki.Rsa
