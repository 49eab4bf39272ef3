import Mathlib
import Cryptoki.Bytes

/-!
# `Cryptoki.Bytes.Lemmas` — what reading a byte string as a number does

## Contents
- `Bytes.toNat_cons` — the number, by the first byte and the others.
- `Bytes.toNat_lt` — its bound.
-/

namespace Cryptoki.Bytes

/-- Reading a byte string from a running value: the value is shifted past the whole string. -/
theorem foldl_eq (n : Nat) (b : Bytes) :
    b.foldl (fun n x => n * 256 + x.toNat) n = n * 256 ^ b.length + toNat b := by
  induction b generalizing n with
  | nil => simp
  | cons x b ih =>
    simp only [List.foldl_cons, List.length_cons, toNat]
    rw [ih, ih (0 * 256 + x.toNat), Nat.pow_succ]
    simp only [Nat.zero_mul, Nat.zero_add, Nat.add_mul, Nat.mul_assoc, Nat.add_assoc]
    rw [Nat.mul_comm 256]

@[simp] theorem toNat_cons (x : UInt8) (b : Bytes) :
    toNat (x :: b) = x.toNat * 256 ^ b.length + toNat b := by
  rw [toNat, List.foldl_cons, foldl_eq]; simp

/-- A byte string writes a number below `256` to the power of its length. -/
theorem toNat_lt (b : Bytes) : toNat b < 256 ^ b.length := by
  induction b with
  | nil => simp
  | cons x b ih =>
    have hx : x.toNat < 256 := x.toNat_lt
    have h : x.toNat * 256 ^ b.length ≤ 255 * 256 ^ b.length := Nat.mul_le_mul_right _ (by omega)
    rw [toNat_cons, List.length_cons, Nat.pow_succ]
    omega

end Cryptoki.Bytes
