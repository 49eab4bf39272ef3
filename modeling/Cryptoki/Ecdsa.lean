import Cryptoki.Hmac
import Cryptoki.Secp256k1

/-!
# `Cryptoki.Ecdsa` — ECDSA signatures on `secp256k1`

The secret number of each signature is drawn from the key and the data, so that signing twice gives
the same signature. Of the two signatures `s` and `order - s` the smaller is made, and only that one
verifies.

## Contents
- `Ecdsa.SecretKey`, `Ecdsa.PublicKey` — keys.
- `Ecdsa.prehashField?` — data brought to the size of the field.
- `Ecdsa.nonce?` — the secret number of a signature.
- `Ecdsa.sign`, `Ecdsa.verify` — signatures of two scalars, thirty-two bytes each.
-/

namespace Cryptoki.Ecdsa

open Secp256k1

/-- The width of a scalar in bytes. -/
def scalarWidth : Nat := 32

/-- The width of a signature in bytes. -/
def signatureWidth : Nat := 2 * scalarWidth

/-- The shortest data that is signed. -/
def minPrehash : Nat := 16

/-- A secret key: a scalar other than zero. -/
structure SecretKey where
  scalar : Nat
  pos : 0 < scalar
  lt_order : scalar < order

/-- A public key: a point. -/
structure PublicKey where
  point : Point
deriving DecidableEq, Repr

/-- The secret key that thirty-two bytes write, if they write one. -/
def SecretKey.ofBytes? (b : Bytes) : Option SecretKey :=
  let n := Bytes.toNat b
  if h : b.length = scalarWidth ∧ 0 < n ∧ n < order then some ⟨n, h.2.1, h.2.2⟩ else none

/-- The public key of a secret key. -/
def SecretKey.publicKey (k : SecretKey) : PublicKey := ⟨generator.scale k.scalar⟩

/-- Data brought to thirty-two bytes: cut if it is longer, with zeros in front if it is shorter;
very short data is refused. -/
def prehashField? (data : Bytes) : Option Bytes :=
  if data.length < minPrehash then none
  else some (Bytes.justifyRight scalarWidth (data.take scalarWidth))

/-- Draws until a scalar other than zero comes. One draw is enough but for one seed in `2 ^ 127`;
`tries` bounds the draws. -/
def drawScalar? : Nat → HmacGenerator → Option Nat
  | 0, _ => none
  | tries + 1, g =>
    let (b, g) := g.next
    let n := Bytes.toNat b
    if 0 < n ∧ n < order then some n else drawScalar? tries g

/-- The secret number of the signature of some data. -/
def nonce? (k : SecretKey) (field : Bytes) : Option Nat :=
  drawScalar? 64 (.ofSeed (Bytes.ofNatWidth scalarWidth k.scalar ++ field))

/-- Whether a scalar is in the upper half, where no signature has its second number. -/
def isHigh (s : Nat) : Bool := order < 2 * s

/-- The signature of some data. -/
def sign (k : SecretKey) (data : Bytes) : Option (SizedBytes signatureWidth) := do
  let field ← prehashField? data
  let nonce ← nonce? k field
  let r := (generator.scale nonce).affineX % order
  let s := modInverse order nonce * (Bytes.toNat field + r * k.scalar) % order
  guard (r ≠ 0 ∧ s ≠ 0)
  let s := if isHigh s then order - s else s
  return ⟨Bytes.ofNatWidth scalarWidth r ++ Bytes.ofNatWidth scalarWidth s, by
    simp [signatureWidth, Nat.two_mul]⟩

/-- Whether a signature is one of the data. -/
def verify (k : PublicKey) (data : Bytes) (signature : SizedBytes signatureWidth) : Bool :=
  let r := Bytes.toNat (signature.val.take scalarWidth)
  let s := Bytes.toNat (signature.val.drop scalarWidth)
  match prehashField? data with
  | none => false
  | some field =>
    if 0 < r ∧ r < order ∧ 0 < s ∧ s < order ∧ isHigh s = false then
      let inverse := modInverse order s
      let p := (generator.scale (Bytes.toNat field * inverse % order)).add
        (k.point.scale (r * inverse % order))
      p.affineX % order == r
    else false

end Cryptoki.Ecdsa
