import Cryptoki.Token.Software
import Cryptoki.Proofs.Scheme

/-!
# `Cryptoki.Proofs.Token.Mechanisms` — schemes and token name the same digests and keys

Which algorithm a mechanism digests with, and which keys it takes, is written down twice: in the
table of schemes, and in the token's own. A scheme for RSA or EC keys that resolves finds in the
token's table what its own says.

## Contents
- `Scheme.Resolved.family_eq` — the token takes the keys of the algorithm.
- `Scheme.Resolved.digests`, `Scheme.Resolved.gathers` — the token digests as the algorithm does, or
  it does not digest.
- `Scheme.Resolved.raw`, `Scheme.Resolved.raw_of_digest` — the algorithms that sign data as given.
- `Scheme.isSome_processing?_iff`, `Scheme.exists_streamed?_of_rsa` — the mechanisms that an algorithm runs on.
- `Mechanism.announcedSizes`, `Scheme.check` — the whole check of a key over this token.
- `Scheme.check_eq` — it is the same on every mechanism.
-/

namespace Cryptoki

namespace Scheme

/-! ## Mechanisms -/

theorem digests_of_streamed? {mechanism : Mechanism} {algorithm : SignatureAlgorithm}
    (h : streamed? mechanism = some algorithm) (hdsa : algorithm.family ≠ .dsa) :
    mechanism.family? = some algorithm.family ∧
      ∃ a, algorithm.digest = some a ∧ mechanism.digest? = some a := by
  unfold streamed? at h
  split at h <;> cases h <;> first
    | exact ⟨rfl, _, rfl, rfl⟩
    | exact absurd rfl hdsa

theorem gathers_of_gathered? {mechanism : Mechanism} {family : KeyFamily}
    {digest : Option DigestAlgorithm} {processing : Processing}
    (h : gathered? mechanism family digest = some processing) (hdsa : family ≠ .dsa) :
    mechanism.family? = some family ∧ mechanism.digest? = none ∧ processing ≠ .stream := by
  unfold gathered? at h
  split at h <;> cases h <;> first
    | exact ⟨rfl, rfl, nofun⟩
    | exact absurd rfl hdsa

theorem mechanism_of_gathered? {mechanism : Mechanism} {family : KeyFamily}
    {digest : Option DigestAlgorithm} {processing : Processing}
    (h : gathered? mechanism family digest = some processing) (hdsa : family ≠ .dsa) :
    (family = .rsa ∧ (mechanism = .rsaPkcs ∨ mechanism = .rsaX509))
      ∨ (family = .ec ∧ mechanism = .ecdsa) := by
  unfold gathered? at h
  split at h <;> cases h
  · exact absurd rfl hdsa
  · exact absurd rfl hdsa
  · exact .inr ⟨rfl, rfl⟩
  · exact .inr ⟨rfl, rfl⟩
  · exact .inl ⟨rfl, .inl rfl⟩
  · exact .inl ⟨rfl, .inr rfl⟩

theorem raw_of_gathered?_none {mechanism : Mechanism} {family : KeyFamily}
    {processing : Processing} (h : gathered? mechanism family none = some processing) :
    ∃ rule, processing = .raw rule := by
  unfold gathered? at h
  split at h <;> first
    | contradiction
    | exact ⟨_, (Option.some.inj h).symm⟩

variable {scheme : Scheme}

/-- The token takes the keys that the algorithm signs with. -/
theorem Resolved.family_eq (h : scheme.Resolved) (hdsa : scheme.family ≠ .dsa) :
    scheme.mechanism.family? = some scheme.family := by
  rcases h.cases with ⟨hstreamed, _⟩ | ⟨_, hgathered⟩
  · exact (digests_of_streamed? hstreamed hdsa).1
  · exact (gathers_of_gathered? hgathered hdsa).1

/-- Where the message is passed on, the token digests it as the algorithm does. -/
theorem Resolved.digests (h : scheme.Resolved) (hdsa : scheme.family ≠ .dsa)
    (hproc : scheme.processing = .stream) :
    ∃ a, scheme.algorithm.digest = some a ∧ scheme.mechanism.digest? = some a := by
  rcases h.cases with ⟨hstreamed, _⟩ | ⟨_, hgathered⟩
  · exact (digests_of_streamed? hstreamed hdsa).2
  · exact absurd hproc (gathers_of_gathered? hgathered hdsa).2.2

/-- Where it is not, the token does not digest. -/
theorem Resolved.gathers (h : scheme.Resolved) (hdsa : scheme.family ≠ .dsa)
    (hproc : scheme.processing ≠ .stream) : scheme.mechanism.digest? = none := by
  rcases h.cases with ⟨_, hstream⟩ | ⟨_, hgathered⟩
  · exact absurd hstream hproc
  · exact (gathers_of_gathered? hgathered hdsa).2.1

/-- Only DSA and ECDSA sign data as given, and then the algorithm has no digest. -/
theorem Resolved.raw {rule : LengthRule} (h : scheme.Resolved)
    (hproc : scheme.processing = .raw rule) :
    scheme.algorithm.digest = none ∧ scheme.family ≠ .rsa
      ∧ (scheme.family ≠ .dsa → rule = .atMost rawEcdsaMax) := by
  rcases h.raw_cases hproc with ⟨halgorithm, _, rfl⟩ | ⟨halgorithm, _, rfl⟩ <;>
    rw [family, halgorithm]
  · exact ⟨rfl, nofun, fun hdsa => absurd rfl hdsa⟩
  · exact ⟨rfl, nofun, fun _ => rfl⟩

/-- And an algorithm without a digest signs data as given. -/
theorem Resolved.raw_of_digest (h : scheme.Resolved) (hdsa : scheme.family ≠ .dsa)
    (hdigest : scheme.algorithm.digest = none) : ∃ rule, scheme.processing = .raw rule := by
  rcases h.cases with ⟨hstreamed, _⟩ | ⟨_, hgathered⟩
  · obtain ⟨_, a, ha, _⟩ := digests_of_streamed? hstreamed hdsa
    cases hdigest.symm.trans ha
  · rw [hdigest] at hgathered
    exact raw_of_gathered?_none hgathered

/-- **The mechanisms that an algorithm with a digest runs on**: the one that digests as the algorithm
    does, if there is one, and those that leave it to the caller. -/
theorem isSome_processing?_iff {algorithm : SignatureAlgorithm} (hdigest : algorithm.digest ≠ none)
    (hdsa : algorithm.family ≠ .dsa) (mechanism : Mechanism) :
    (processing? algorithm mechanism).isSome = true ↔
      streamed? mechanism = some algorithm
        ∨ (algorithm.family = .rsa ∧ (mechanism = .rsaPkcs ∨ mechanism = .rsaX509))
        ∨ (algorithm.family = .ec ∧ mechanism = .ecdsa) := by
  obtain ⟨a, ha⟩ := Option.ne_none_iff_exists'.mp hdigest
  unfold processing?
  cases hstreamed : streamed? mechanism with
  | some streamed =>
      -- a mechanism that digests is none of those that do not
      have hgathered : mechanism ≠ .rsaPkcs ∧ mechanism ≠ .rsaX509 ∧ mechanism ≠ .ecdsa := by
        refine ⟨?_, ?_, ?_⟩ <;> rintro rfl <;> cases hstreamed
      by_cases hsame : streamed = algorithm <;> simp [hsame, hgathered]
  | none =>
      rw [ha]
      constructor
      · intro hsome
        obtain ⟨processing, hgathered⟩ := Option.isSome_iff_exists.mp hsome
        exact .inr (mechanism_of_gathered? hgathered hdsa)
      · rintro (hstreams | ⟨hrsa, rfl | rfl⟩ | ⟨hec, rfl⟩)
        · cases hstreams
        · rw [hrsa]
          rfl
        · rw [hrsa]
          rfl
        · rw [hec]
          rfl

/-- Every RSA algorithm has a mechanism that digests as it does. -/
theorem exists_streamed?_of_rsa {algorithm : SignatureAlgorithm} (hrsa : algorithm.family = .rsa) :
    ∃ mechanism, streamed? mechanism = some algorithm := by
  cases algorithm with
  | md2WithRsa => exact ⟨.md2RsaPkcs, rfl⟩
  | md5WithRsa => exact ⟨.md5RsaPkcs, rfl⟩
  | sha1WithRsa => exact ⟨.sha1RsaPkcs, rfl⟩
  | sha224WithRsa => exact ⟨.sha224RsaPkcs, rfl⟩
  | sha256WithRsa => exact ⟨.sha256RsaPkcs, rfl⟩
  | sha384WithRsa => exact ⟨.sha384RsaPkcs, rfl⟩
  | sha512WithRsa => exact ⟨.sha512RsaPkcs, rfl⟩
  | _ => cases hrsa

end Scheme

/-! ## The check of a key -/

/-- The key sizes that the token announces for a mechanism, if it has it. -/
def Mechanism.announcedSizes (mechanism : Mechanism) : Option KeySizeRange :=
  match mechanism.softwareKeySizes with
  | .ok sizes => sizes
  | .error _ => none

namespace Scheme

/-- The check of a key for a mode: family and half, and the size. -/
def check (scheme : Scheme) (key : Key) (mode : OperationMode) : Except KeyFault Unit :=
  match scheme.acceptKey key mode with
  | .error fault => .error fault
  | .ok _ => scheme.acceptSize key scheme.mechanism.announcedSizes

variable {scheme scheme' : Scheme}

theorem Resolved.ne_dsa (h : scheme.Resolved) (hdsa : scheme.family ≠ .dsa) :
    scheme.mechanism ≠ .dsa := by
  intro heq
  have hfamily := h.family_eq hdsa
  rw [heq] at hfamily
  cases hfamily

theorem Resolved.announcedSizes_eq (h : scheme.Resolved) (h' : scheme'.Resolved)
    (hdsa : scheme.family ≠ .dsa) (halgorithm : scheme.algorithm = scheme'.algorithm) :
    scheme.mechanism.announcedSizes = scheme'.mechanism.announcedSizes := by
  have hsame : scheme.family = scheme'.family := congrArg SignatureAlgorithm.family halgorithm
  simp only [Mechanism.announcedSizes, Mechanism.softwareKeySizes, h.family_eq hdsa,
    h'.family_eq (hsame ▸ hdsa), hsame]

theorem Resolved.maxKeyBits_eq (h : scheme.Resolved) (hdsa : scheme.family ≠ .dsa)
    (max : Option Nat) : scheme.maxKeyBits max = max := by
  rw [maxKeyBits, if_neg]
  exact fun hboth => h.ne_dsa hdsa hboth.1

/-- The number of a key is left aside. -/
theorem check_congr {key key' : Key} (hhalf : key.half = key'.half)
    (hparams : key.params = key'.params) (mode : OperationMode) :
    scheme.check key mode = scheme.check key' mode := by
  obtain ⟨handle, half, params⟩ := key
  obtain ⟨handle', half', params'⟩ := key'
  obtain rfl : half = half' := hhalf
  obtain rfl : params = params' := hparams
  rfl

/-- **A key is checked the same way on every mechanism of an algorithm.** -/
theorem check_eq (h : scheme.Resolved) (h' : scheme'.Resolved) (hdsa : scheme.family ≠ .dsa)
    (halgorithm : scheme.algorithm = scheme'.algorithm) (key : Key) (mode : OperationMode) :
    scheme.check key mode = scheme'.check key mode := by
  have hfamily : scheme.family = scheme'.family := congrArg SignatureAlgorithm.family halgorithm
  have hkey : scheme.acceptKey key mode = scheme'.acceptKey key mode := by
    simp only [acceptKey, hfamily, halgorithm]
  have hbounds : ∀ sizes, scheme.acceptBounds key sizes = scheme'.acceptBounds key sizes := by
    intro sizes
    simp only [acceptBounds, h.maxKeyBits_eq hdsa, h'.maxKeyBits_eq (hfamily ▸ hdsa)]
  have hheadroom : scheme.acceptHeadroom key = scheme'.acceptHeadroom key := by
    simp only [acceptHeadroom, halgorithm]
  simp only [check, hkey, acceptSize, hbounds, hheadroom, h.announcedSizes_eq h' hdsa halgorithm]

end Scheme

end Cryptoki
