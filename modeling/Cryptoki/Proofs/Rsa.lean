import Mathlib.NumberTheory.LucasLehmer
import Cryptoki.Modular.Lemmas
import Cryptoki.Proofs.Bytes
import Cryptoki.Proofs.Token.Signing

/-!
# `Cryptoki.Proofs.Rsa` — the signatures of different primes verify

The exponents of a key undo each other modulo each of its factors, if that is a prime: a power whose
exponent leaves one modulo `p - 1` leaves its base modulo `p`. Primes of which no two are the same
put this together for their product, one after the other. Payloads that leave room for the padding
write numbers below the modulus, so nothing stands in the way of their signatures.

## Contents
- `Rsa.pow_modEq_self` — powers that leave their base, modulo a prime.
- `Rsa.product_eq_prod`, `Rsa.PrivateKey.combinedPower?_pow` — the same modulo the product of primes.
- `Rsa.PrivateKey.power_pow` — the public power undoes the private power.
- `Rsa.toNat_block_lt` — padded payloads are below the modulus.
- `Rsa.sign_verifies`, `Rsa.standard_roundTrips` — every payload that fits is signed, and the
  signature verifies.
- `Rsa.mersenneKey` — such a key.
-/

namespace Cryptoki.Rsa

/-! ## Powers -/

/-- Modulo a prime, an exponent that leaves one modulo the prime less one leaves the base. -/
theorem pow_modEq_self {p n : Nat} (hp : p.Prime) (hn : n % (p - 1) = 1) (m : Nat) :
    m ^ n ≡ m [MOD p] := by
  have hexponent : n = (p - 1) * (n / (p - 1)) + 1 := by
    have hdiv := Nat.div_add_mod n (p - 1)
    omega
  by_cases hdvd : p ∣ m
  · have hzero : m ≡ 0 [MOD p] := (Nat.modEq_zero_iff_dvd).mpr hdvd
    have hpow : m ^ n ≡ 0 [MOD p] := by
      rw [hexponent, Nat.pow_succ]
      simpa using hzero.mul_left (m ^ ((p - 1) * (n / (p - 1))))
    exact hpow.trans hzero.symm
  · have hcoprime : Nat.Coprime m p := ((hp.coprime_iff_not_dvd).mpr hdvd).symm
    have hfermat : m ^ (p - 1) ≡ 1 [MOD p] := by
      have heuler := Nat.ModEq.pow_totient hcoprime
      rwa [Nat.totient_prime hp] at heuler
    calc m ^ n = (m ^ (p - 1)) ^ (n / (p - 1)) * m := by
          rw [← Nat.pow_mul]
          conv_lhs => rw [hexponent, Nat.pow_succ]
      _ ≡ 1 ^ (n / (p - 1)) * m [MOD p] := (hfermat.pow _).mul_right m
      _ = m := by rw [Nat.one_pow, Nat.one_mul]

theorem product_eq_prod (factors : List Nat) : product factors = factors.prod := by
  induction factors with
  | nil => rfl
  | cons p factors ih => rw [product, ih, List.prod_cons]

namespace PrivateKey

variable {k : PrivateKey}

/-- The power modulo one prime factor, and back. -/
theorem modPow_pow {p e d : Nat} (hp : p.Prime) (hexponents : e * d % (p - 1) = 1) (m : Nat) :
    modPow p m (d % (p - 1)) ^ e ≡ m [MOD p] := by
  have hexponent : d % (p - 1) * e % (p - 1) = 1 := by
    rw [Nat.mod_mul_mod, Nat.mul_comm]
    exact hexponents
  rw [modPow_eq]
  calc (m ^ (d % (p - 1)) % p) ^ e ≡ (m ^ (d % (p - 1))) ^ e [MOD p] := (Nat.mod_modEq _ p).pow e
    _ = m ^ (d % (p - 1) * e) := (Nat.pow_mul _ _ _).symm
    _ ≡ m [MOD p] := pow_modEq_self hp hexponent m

/-- Powers modulo primes, no two of them the same, can be combined, and back. -/
theorem combinedPower?_pow {e d : Nat} {factors : List Nat} (hprime : ∀ p ∈ factors, p.Prime)
    (hdistinct : factors.Nodup) (hexponents : ∀ p ∈ factors, e * d % (p - 1) = 1) (m : Nat) :
    ∃ s, combinedPower? m d factors = some s ∧ s < product factors
      ∧ s ^ e ≡ m [MOD product factors] := by
  induction factors with
  | nil => exact ⟨0, rfl, Nat.one_pos, Nat.modEq_one⟩
  | cons p factors ih =>
      obtain ⟨hp, hprime⟩ := List.forall_mem_cons.mp hprime
      obtain ⟨hnew, hdistinct⟩ := List.nodup_cons.mp hdistinct
      obtain ⟨hexponent, hexponents⟩ := List.forall_mem_cons.mp hexponents
      obtain ⟨rest, hrest, hlt, hpower⟩ := ih hprime hdistinct hexponents
      have hcoprime : Nat.Coprime p (product factors) := by
        rw [product_eq_prod]
        exact Nat.coprime_list_prod_right_iff.mpr fun q hq =>
          (Nat.coprime_primes hp (hprime q hq)).mpr fun heq => hnew (heq ▸ hq)
      obtain ⟨i, hi⟩ := Option.isSome_iff_exists.mp
        ((isSome_modInverse? hp.pos).mpr hcoprime.symm)
      obtain ⟨s, hs⟩ : ∃ s, combineResidues? p (product factors) (modPow p m (d % (p - 1)))
          rest = some s := ⟨_, by rw [combineResidues?, hi, Option.map_some]⟩
      obtain ⟨hbelow, hleft, hright⟩ := combineResidues?_mod hp.pos hlt hs
      refine ⟨s, ?_, hbelow, (Nat.modEq_and_modEq_iff_modEq_mul hcoprime).mp ⟨?_, ?_⟩⟩
      · simp only [combinedPower?, hrest, Option.bind_eq_bind, Option.bind_some, hs]
      · exact (hleft.pow _).trans (modPow_pow hp hexponent m)
      · exact (hright.pow _).trans hpower

/-- **The public power undoes the private power**, if the factors are primes, no two of them the
    same. -/
theorem power_pow (hprime : ∀ p ∈ k.factors, p.Prime) (hdistinct : k.factors.Nodup) (m : Nat) :
    k.power m < k.modulus ∧ k.power m ^ k.publicExponent ≡ m [MOD k.modulus] := by
  obtain ⟨s, hs, hlt, hpower⟩ := combinedPower?_pow hprime hdistinct k.exponents m
  have hsame : k.power m = s := by simp only [power, hs]
  rw [hsame, ← k.product_eq]
  exact ⟨hlt, hpower⟩

end PrivateKey

/-! ## Blocks -/

/-- A modulus fits its bytes. -/
theorem lt_pow_size (k : PublicKey) : k.modulus < 256 ^ k.size := by
  have hpow : 256 ^ k.size = 2 ^ (8 * k.size) := by rw [Nat.pow_mul]
  rw [hpow, ← Bytes.natBits_le]
  unfold PublicKey.size
  omega

/-- A block starts with a zero, so it is below the modulus. -/
theorem toNat_block_lt (k : PublicKey) {payload : Bytes}
    (h : payload.length + paddingOverhead ≤ k.size) :
    Bytes.toNat (BlockPadding.block k.size payload) < k.modulus := by
  simp only [paddingOverhead] at h
  exact (BlockPadding.toNat_block_lt_pow (by omega)).trans_le
    (Bytes.pow_le_of_natBits (show 0 < k.size by omega))

/-! ## Signatures -/

/-- **A payload that leaves room for the padding is signed, and the signature verifies.** -/
theorem sign_verifies {k : PrivateKey} (hprime : ∀ p ∈ k.factors, p.Prime)
    (hdistinct : k.factors.Nodup) {payload : Bytes} (h : payload.length + paddingOverhead ≤ k.size) :
    ∃ s, sign k payload = some s ∧ verify k.toPublicKey payload s = true := by
  have hblock : block k.size payload = some (BlockPadding.block k.size payload) := if_pos h
  have hbelow := toNat_block_lt k.toPublicKey h
  generalize hm : Bytes.toNat (BlockPadding.block k.size payload) = m at hbelow
  obtain ⟨hlt, hpower⟩ := PrivateKey.power_pow hprime hdistinct m
  have hback : modPow k.modulus (k.power m) k.publicExponent = m := by
    rw [modPow_eq]
    exact Eq.trans hpower (Nat.mod_eq_of_lt hbelow)
  have hread : Bytes.toNat (Bytes.sizedOfNat k.size (k.power m)).val = k.power m := by
    rw [Bytes.sizedOfNat, Bytes.toNat_ofNatWidth]
    exact Nat.mod_eq_of_lt (hlt.trans (lt_pow_size k.toPublicKey))
  refine ⟨Bytes.sizedOfNat k.size (k.power m), ?_, ?_⟩
  · simp [sign, hblock, hm, hbelow, hback]
  · simp [verify, hblock, hm, hread, hlt, hback]

/-- **A key of primes, no two of them the same, signs all payloads that leave room for the
    padding.** -/
theorem standard_roundTrips {k : PrivateKey} (hprime : ∀ p ∈ k.factors, p.Prime)
    (hdistinct : k.factors.Nodup) : KeyOperations.standard.RoundTrips (.rsa k) := by
  intro payload htakes
  exact sign_verifies hprime hdistinct htakes

/-- A key of two Mersenne primes. -/
def mersenneKey : PrivateKey where
  modulus := (2 ^ 521 - 1) * (2 ^ 607 - 1)
  publicExponent := 65537
  privateExponent := (1 + 10880 * ((2 ^ 521 - 2) * (2 ^ 607 - 2))) / 65537
  factors := [2 ^ 521 - 1, 2 ^ 607 - 1]
  one_lt := by decide +kernel
  product_eq := by decide +kernel
  exponents := by decide +kernel

theorem mersenneKey_roundTrips : KeyOperations.standard.RoundTrips (.rsa mersenneKey) := by
  have hp : (mersenne 521).Prime := lucas_lehmer_sufficiency 521 (by simp) (by norm_num)
  have hq : (mersenne 607).Prime := lucas_lehmer_sufficiency 607 (by simp) (by norm_num)
  exact standard_roundTrips
    (List.forall_mem_cons.mpr ⟨hp, List.forall_mem_singleton.mpr hq⟩) (by decide +kernel)

end Cryptoki.Rsa
