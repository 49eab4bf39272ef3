import Cryptoki.Modular

/-!
# `Cryptoki.Secp256k1` — points of the curve `y² = x³ + 7`

A point is held as three numbers `x`, `y`, `z` modulo the field prime: it is `(x / z², y / z³)`, and
the point at infinity if `z` is zero. So adding two points takes no division.

## Contents
- `Secp256k1.prime`, `Secp256k1.order`, `Secp256k1.generator` — the curve's numbers.
- `Secp256k1.Point`, with `double`, `add` and `scale`.
- `Secp256k1.Point.affineX` — the first coordinate.
-/

namespace Cryptoki.Secp256k1

/-- The prime of the field. -/
def prime : Nat := 0xfffffffffffffffffffffffffffffffffffffffffffffffffffffffefffffc2f

/-- The number of points, a prime too. -/
def order : Nat := 0xfffffffffffffffffffffffffffffffebaaedce6af48a03bbfd25e8cd0364141

/-- A point, by numbers below `prime`. -/
structure Point where
  x : Nat
  y : Nat
  z : Nat
deriving DecidableEq, Repr

/-- The product in the field. -/
def mul (a b : Nat) : Nat := a * b % prime

/-- The difference in the field. -/
def sub (a b : Nat) : Nat := modSub prime a b

namespace Point

/-- The point at infinity. -/
def infinity : Point := ⟨1, 1, 0⟩

/-- A point added to itself. -/
def double (p : Point) : Point :=
  if p.z = 0 ∨ p.y = 0 then infinity
  else
    let a := mul p.x p.x
    let b := mul p.y p.y
    let c := mul b b
    let d := mul 4 (mul p.x b)
    let e := mul 3 a
    let x := sub (mul e e) (2 * d)
    ⟨x, sub (mul e (sub d x)) (8 * c), mul 2 (mul p.y p.z)⟩

/-- The sum of two points. -/
def add (p q : Point) : Point :=
  if p.z = 0 then q
  else if q.z = 0 then p
  else
    let pz2 := mul p.z p.z
    let qz2 := mul q.z q.z
    let u1 := mul p.x qz2
    let s1 := mul p.y (mul qz2 q.z)
    let h := sub (mul q.x pz2) u1
    let r := sub (mul q.y (mul pz2 p.z)) s1
    if h = 0 then if r = 0 then double p else infinity
    else
      let h2 := mul h h
      let h3 := mul h2 h
      let v := mul u1 h2
      let x := sub (mul r r) (h3 + 2 * v)
      ⟨x, sub (mul r (sub v x)) (mul s1 h3), mul h (mul p.z q.z)⟩

/-- The sum of `n` copies of a point. -/
def scale (n : Nat) (p : Point) : Point :=
  if n = 0 then infinity
  else
    let half := double (scale (n / 2) p)
    if n % 2 = 1 then add half p else half
termination_by n

/-- The first coordinate; zero for the point at infinity. -/
def affineX (p : Point) : Nat := mul p.x (modInverse prime (mul p.z p.z))

end Point

/-- The point that generates all others. -/
def generator : Point where
  x := 0x79be667ef9dcbbac55a06295ce870b07029bfcdb2dce28d959f2815b16f81798
  y := 0x483ada7726a3c4655da4fbfc0e1108a8fd17b448a68554199c47d08ffb10d4b8
  z := 1

end Cryptoki.Secp256k1
