/-!
# `Cryptoki.Modular` — arithmetic modulo a number

## Contents
- `modPow` — powers by repeated squaring.
- `modSub` — differences.
- `modInverse?`, `modInverse` — inverses, found the way the greatest common divisor is.
- `combineResidues?` — a number from what it leaves modulo two others.
-/

namespace Cryptoki

/-- `b ^ e` modulo `m`, by repeated squaring. -/
def modPow (m b e : Nat) : Nat :=
  if e = 0 then 1 % m
  else
    let half := modPow m (b * b % m) (e / 2)
    if e % 2 = 1 then b * half % m else half
termination_by e

/-- The difference of two numbers modulo `p`. -/
def modSub (p a b : Nat) : Nat := (a + (p - b % p)) % p

/-- The inverse of `a` modulo `m`, unless the two have a common factor. With `r` for `a` modulo `m`
and `z` for the inverse of `m` modulo `r`, the number `1 + m * (r - z)` is a multiple of `r`, and
the quotient is the inverse. -/
def modInverse? (m a : Nat) : Option Nat :=
  if m = 1 then some 0
  else if m = 0 ∨ a % m = 0 then none
  else (modInverse? (a % m) m).map fun z => (1 + m * (a % m - z)) / (a % m) % m
termination_by m
decreasing_by exact Nat.mod_lt a (by omega)

/-- The inverse of `a` modulo `m`; zero if there is none. -/
def modInverse (m a : Nat) : Nat := (modInverse? m a).getD 0

/-- The number below `p * q` that is `a` modulo `p` and `b` modulo `q`, where `b` is below `q`,
unless `p` and `q` have a common factor. -/
def combineResidues? (p q a b : Nat) : Option Nat :=
  (modInverse? p q).map fun inverse => b + q * (modSub p a b * inverse % p)

end Cryptoki
