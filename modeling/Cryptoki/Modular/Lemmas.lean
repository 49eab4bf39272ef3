import Mathlib
import Cryptoki.Modular

/-!
# `Cryptoki.Modular.Lemmas` — what powers, inverses and combined residues are

## Contents
- `modPow_eq` — the power, reduced once at the end.
- `modSub_add` — what a difference is added to.
- `modInverse?_mul`, `isSome_modInverse?` — what an inverse is, and when there is one.
- `combineResidues?_mod` — what a combined number leaves, and its bound.
-/

namespace Cryptoki

/-! ## Powers -/

/-- Reducing at every step gives what reducing at the end gives. -/
theorem modPow_eq (m b e : Nat) : modPow m b e = b ^ e % m := by
  induction e using Nat.strongRecOn generalizing b with
  | ind e ih =>
    rw [modPow]
    split
    · next h => rw [h, Nat.pow_zero]
    · next h =>
      have hhalf : modPow m (b * b % m) (e / 2) = (b * b) ^ (e / 2) % m := by
        rw [ih (e / 2) (by omega), ← Nat.pow_mod]
      have hpow : (b * b) ^ (e / 2) = b ^ (2 * (e / 2)) := by rw [← Nat.pow_two, ← Nat.pow_mul]
      simp only [hhalf, hpow]
      split
      · next hodd =>
        have he : e = 2 * (e / 2) + 1 := by omega
        conv => rhs; rw [he, Nat.pow_succ, Nat.mul_comm]
        rw [Nat.mul_mod_mod]
      · next heven =>
        have he : e = 2 * (e / 2) := by omega
        conv => rhs; rw [he]

/-! ## Inverses and residues -/

/-- The difference is what has to be added to the second number. -/
theorem modSub_add {p : Nat} (hp : 0 < p) (a b : Nat) : modSub p a b + b ≡ a [MOD p] := by
  have hb : b % p + (p - b % p) = p := Nat.add_sub_cancel' (Nat.mod_lt b hp).le
  calc modSub p a b + b
      ≡ a + (p - b % p) + b % p [MOD p] := (Nat.mod_modEq _ p).add (Nat.mod_modEq b p).symm
    _ = a + p := by omega
    _ ≡ a [MOD p] := by simp [Nat.ModEq]

/-- An inverse is reduced, and the product with it leaves one. -/
theorem modInverse?_mul {m a x : Nat} (h : modInverse? m a = some x) :
    x < m ∧ x * a ≡ 1 [MOD m] := by
  induction m using Nat.strongRecOn generalizing a x with
  | ind m ih =>
    rw [modInverse?] at h
    split at h
    · next hm => cases h; subst hm; exact ⟨Nat.one_pos, Nat.modEq_one⟩
    · next hm =>
      split at h
      · cases h
      · next hz =>
        rw [not_or] at hz
        have hr : a % m < m := Nat.mod_lt a (Nat.pos_of_ne_zero hz.1)
        obtain ⟨z, hi, rfl⟩ := Option.map_eq_some_iff.mp h
        obtain ⟨hlt, hmul⟩ := ih _ hr hi
        refine ⟨Nat.mod_lt _ (by omega), ?_⟩
        have hdvd : a % m ∣ 1 + m * (a % m - z) := by
          have hsum : z * m + m * (a % m - z) = m * (a % m) := by
            rw [Nat.mul_comm z, ← Nat.mul_add, Nat.add_sub_cancel' hlt.le]
          have := hmul.add_right (m * (a % m - z))
          rw [hsum] at this
          exact (Nat.modEq_zero_iff_dvd).mp (this.symm.trans
            ((Nat.modEq_zero_iff_dvd).mpr (Nat.dvd_mul_left _ _)))
        calc (1 + m * (a % m - z)) / (a % m) % m * a
            ≡ (1 + m * (a % m - z)) / (a % m) * (a % m) [MOD m] :=
              (Nat.mod_modEq _ m).mul (Nat.mod_modEq a m).symm
          _ = 1 + m * (a % m - z) := Nat.div_mul_cancel hdvd
          _ ≡ 1 [MOD m] := by simp [Nat.ModEq]

/-- A number has an inverse exactly if it has no factor in common with the modulus. -/
theorem isSome_modInverse? {m a : Nat} (hm : 0 < m) :
    (modInverse? m a).isSome ↔ Nat.Coprime a m := by
  induction m using Nat.strongRecOn generalizing a with
  | ind m ih =>
    rw [modInverse?]
    split
    · next h => subst h; simp
    · next h =>
      split
      · next hz =>
        have hz : m ∣ a := Nat.dvd_of_mod_eq_zero (hz.resolve_left (by omega))
        simp only [Option.isSome_none, Bool.false_eq_true, false_iff, Nat.Coprime,
          Nat.gcd_eq_right hz]
        exact h
      · next hz =>
        rw [not_or] at hz
        rw [Option.isSome_map, ih _ (Nat.mod_lt a hm) (Nat.pos_of_ne_zero hz.2), Nat.Coprime,
          Nat.Coprime, Nat.gcd_comm m, ← Nat.gcd_rec, Nat.gcd_comm]

/-- What was combined is below the product, and what it was combined from is left. -/
theorem combineResidues?_mod {p q a b x : Nat} (hp : 0 < p) (hb : b < q)
    (h : combineResidues? p q a b = some x) :
    x < p * q ∧ x ≡ a [MOD p] ∧ x ≡ b [MOD q] := by
  obtain ⟨i, hi, rfl⟩ := Option.map_eq_some_iff.mp h
  have hinv := (modInverse?_mul hi).2
  have ht : modSub p a b * i % p < p := Nat.mod_lt _ hp
  refine ⟨?_, ?_, ?_⟩
  · calc b + q * (modSub p a b * i % p) < q + q * (modSub p a b * i % p) := by omega
      _ = (modSub p a b * i % p + 1) * q := by ring
      _ ≤ p * q := Nat.mul_le_mul_right q ht
  · calc b + q * (modSub p a b * i % p)
        ≡ b + q * (modSub p a b * i) [MOD p] := ((Nat.mod_modEq _ p).mul_left q).add_left b
      _ = b + modSub p a b * (i * q) := by ring
      _ ≡ b + modSub p a b * 1 [MOD p] := (hinv.mul_left _).add_left b
      _ = modSub p a b + b := by ring
      _ ≡ a [MOD p] := modSub_add hp a b
  · simp [Nat.ModEq]

end Cryptoki
