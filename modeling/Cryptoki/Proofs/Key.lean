import Cryptoki.Proofs.Rsa
import Cryptoki.Proofs.Token.Signing

/-!
# `Cryptoki.Proofs.Key` — a key is as large as its number

The size of a key decides how a digest is padded for it, which bounds it has to keep and how long its
signatures are. Outside the token it is read off the bytes that a modulus or a prime is written in,
by their count and the top bit of the first that is not zero; the token reads it off the number.
Leading zeros do not matter, and the two are the same.

## Contents
- `Key.bits_eq`, `Key.bytes_eq`, `Key.isLeast_bytes` — the size of a key, by its number.
- `StoredKey.modulusSize?` — the size that a stored RSA key reports.
- `Software.Holds.modulusSize?_eq` — a stored pair has the size that it is described with.
- `Software.Holds.length_tokenForm` — an engine pads to that size.
- `Key.size_exact` — all sizes are that of the number.
-/

namespace Cryptoki

/-! ## Described keys -/

namespace Key

variable {key : Key} {number : Bytes}

/-- The number of a key gives its size. -/
theorem bits_eq (h : key.params.magnitude? = some number) : key.bits = Bytes.bitLength number := by
  unfold bits
  cases hparams : key.params with
  | rsa modulus =>
      rw [hparams] at h
      exact congrArg Bytes.bitLength (Option.some.inj h)
  | dsa prime =>
      rw [hparams] at h
      exact congrArg Bytes.bitLength (Option.some.inj h)
  | ec fieldBits =>
      rw [hparams] at h
      cases h

/-- The size in bytes is what the number has without leading zeros. -/
theorem bytes_eq (h : key.params.magnitude? = some number) :
    key.bytes = (Bytes.stripZeros number).length := by
  rw [bytes, bits_eq h, Bytes.length_stripZeros]

/-- The number cannot be written in fewer bytes. -/
theorem isLeast_bytes (h : key.params.magnitude? = some number) :
    IsLeast (List.length '' {form | Bytes.toNat form = Bytes.toNat number}) key.bytes := by
  rw [bytes_eq h]
  constructor
  · exact ⟨Bytes.stripZeros number, Bytes.toNat_stripZeros number, rfl⟩
  · rintro _ ⟨form, hform, rfl⟩
    exact Bytes.length_stripZeros_le hform

theorem bytes_eq_zero_iff (h : key.params.magnitude? = some number) :
    key.bytes = 0 ↔ Bytes.toNat number = 0 := by
  rw [← Bytes.bitLength_eq_zero_iff, ← bits_eq h]
  unfold bytes
  omega

end Key

/-! ## Stored keys -/

/-- The size of the modulus that a stored RSA key reports, in bytes. -/
def StoredKey.modulusSize? : StoredKey → Option Nat
  | rsaPrivate k => some k.size
  | rsaPublic k => some k.size
  | ecPrivate _ | ecPublic _ => none

namespace Software.Holds

variable {ops : KeyOperations} {t : Software ops} {k : Rsa.PrivateKey} {pair : KeyPair}

/-- Each half of a pair is stored with the size that it is described with. -/
theorem modulusSize?_eq (h : t.Holds (.rsa k) pair) (mode : OperationMode) :
    (t.keys.get? (pair.keyFor mode).handle).bind StoredKey.modulusSize?
      = some (pair.keyFor mode).bytes := by
  rw [h.stored mode, Scheme.bytes_of_params (h.params mode)]
  cases mode <;> rfl

/-- An engine that pads for a half of a pair pads to the size of its modulus. -/
theorem length_tokenForm (h : t.Holds (.rsa k) pair) {mode : OperationMode} {e : Engine}
    {hash block : Bytes} (hresolved : e.scheme.Resolved) (hx509 : e.scheme.mechanism = .rsaX509)
    (hkey : e.key = some (pair.keyFor mode)) (hform : e.tokenForm hash = .ok block) :
    block.length = k.size := by
  obtain ⟨a, hwrapped⟩ := hresolved.exists_wrappedDigest hx509
  obtain ⟨padding, info, hpadded⟩ := Engine.paddedFor_of_tokenForm hwrapped hx509 hkey hform
  exact hpadded.length_eq.trans (Scheme.bytes_of_params (h.params mode))

end Software.Holds

/-! ## All sizes -/

namespace Key

/-- **A key is as large as its number.** The size in bits of a byte string is the least count of
    binary digits that hold its number; so it is zero for zeros only, and zeros in front do not change
    it. The size in bytes of an RSA or DSA key is that of its modulus or prime without leading zeros,
    and no shorter byte string writes the number. For every RSA pair that is stored in a token, each
    half is described with the size that the token finds under its handle. So an engine that has to
    pad for it pads to that size, or finds it too small as the token does. -/
theorem size_exact (ops : KeyOperations) :
    (∀ b : Bytes, IsLeast {n | Bytes.toNat b < 2 ^ n} (Bytes.bitLength b)
        ∧ (Bytes.bitLength b = 0 ↔ ∀ x ∈ b, x = 0)
        ∧ ∀ zeros, Bytes.bitLength (List.replicate zeros 0 ++ b) = Bytes.bitLength b)
      ∧ (∀ (key : Key) (number : Bytes), key.params.magnitude? = some number →
        key.bytes = (Bytes.stripZeros number).length
          ∧ IsLeast (List.length '' {form | Bytes.toNat form = Bytes.toNat number}) key.bytes
          ∧ (key.bytes = 0 ↔ Bytes.toNat number = 0))
      ∧ ∀ (t : Software ops) (k : Rsa.PrivateKey) (mode : OperationMode),
        let key := (t.addRsa k).1.keyFor mode
        ((t.addRsa k).2.keys.get? key.handle).bind StoredKey.modulusSize? = some key.bytes
          ∧ BlockPadding.ofBits key.bits = BlockPadding.new k.size
          ∧ ∀ (e : Engine) (hash block : Bytes), e.scheme.Resolved →
            e.scheme.mechanism = .rsaX509 → e.key = some key → e.tokenForm hash = .ok block →
            block.length = k.size := by
  refine ⟨fun b => ⟨⟨?_, ?_⟩, ?_, ?_⟩, fun key number h => ?_, fun t k mode => ?_⟩
  · exact Bytes.bitLength_le.mp (Nat.le_refl _)
  · intro n hn
    exact Bytes.bitLength_le.mpr hn
  · exact Bytes.bitLength_eq_zero_iff.trans Bytes.toNat_eq_zero_iff
  · intro zeros
    exact Bytes.bitLength_replicate_zero zeros b
  · exact ⟨bytes_eq h, isLeast_bytes h, bytes_eq_zero_iff h⟩
  · intro key
    -- all that is said of a stored pair follows from what its handles find
    have hholds : (t.addRsa k).2.Holds (.rsa k) (t.addRsa k).1 := t.addPair_holds (.rsa k)
    refine ⟨hholds.modulusSize?_eq mode, ?_, ?_⟩
    · exact congrArg BlockPadding.new (Scheme.bytes_of_params (hholds.params mode))
    · intro e hash block hresolved hx509 hkey hform
      exact hholds.length_tokenForm hresolved hx509 hkey hform

/-- A DSA prime with zeros in front, and a block for an RSA key that is stored. -/
theorem size_exact_of_zeros :
    let pair := ((Software.empty none false : Software .standard).addRsa Rsa.mersenneKey).1
    let e : Engine := { Engine.ofScheme ⟨.sha256WithRsa, .rsaX509, .digestHere .sha256⟩ with
      key := some pair.privateKey }
    Key.bytes ⟨⟨1⟩, .publicKey, .dsa [0x00, 0x00, 0x01, 0x00]⟩ = 2
      ∧ ∃ block, e.tokenForm (List.replicate 32 0) = .ok block ∧ block.length = 141 := by
  intro pair e
  obtain ⟨_, hkeys, hstored⟩ := size_exact .standard
  refine ⟨(hkeys _ [0x00, 0x00, 0x01, 0x00] rfl).1, ?_⟩
  have hform : (e.tokenForm (List.replicate 32 0)).isOk = true := by decide +kernel
  cases hblock : e.tokenForm (List.replicate 32 0) with
  | error err =>
      rw [hblock] at hform
      cases hform
  | ok block =>
      obtain ⟨_, _, hlength⟩ := hstored (.empty none false) Rsa.mersenneKey .sign
      have hsize : Rsa.mersenneKey.size = 141 := by decide +kernel
      exact ⟨block, rfl, (hlength e _ block rfl rfl rfl hblock).trans hsize⟩

end Key

end Cryptoki
