import Cryptoki.KeyAcceptance
import Cryptoki.Proofs.DigestInfo

/-!
# `Cryptoki.Proofs.Scheme` — what is known of an algorithm that runs on a mechanism

Two checks are made before anything is signed: that the algorithm runs on the mechanism, and that
the key is one for the algorithm. Here is what they leave to rely on afterwards.

## Contents
- `Scheme.Resolved`, `Scheme.resolved_of_resolve` — the schemes there are.
- `Scheme.Resolved.digest_eq` — what is digested here is the algorithm's own digest.
- `Scheme.Resolved.raw_cases` — the two algorithms that sign data as given.
- `Scheme.ofKeyFault_of_acceptKey`, `Scheme.ofKeyFault_of_acceptSize` — what is wrong with a key is
  reported as a fault of the key.
- `Scheme.Roomy`, `Scheme.roomy_of_acceptSize` — the blocks of an accepted RSA key hold the digest.
- `Scheme.Suits` — the keys that a scheme can be used with.
-/

namespace Cryptoki.Scheme

/-! ## Algorithms on mechanisms -/

/-- The algorithm runs on the mechanism, with this processing. -/
def Resolved (scheme : Scheme) : Prop :=
  processing? scheme.algorithm scheme.mechanism = some scheme.processing

variable {scheme : Scheme}

theorem resolved_of_resolve {name : String} {mechanism : Mechanism}
    (h : resolve name mechanism = .ok scheme) : scheme.Resolved := by
  unfold resolve at h
  split at h
  · cases h
  · split at h
    · cases h
    · next hprocessing =>
        obtain rfl := Except.ok.inj h
        exact hprocessing

/-- A mechanism either digests, and then it is used for its own algorithm only, or takes data that
    is gathered. -/
theorem Resolved.cases (h : scheme.Resolved) :
    (streamed? scheme.mechanism = some scheme.algorithm ∧ scheme.processing = .stream) ∨
    (streamed? scheme.mechanism = none ∧
      gathered? scheme.mechanism scheme.algorithm.family scheme.algorithm.digest
        = some scheme.processing) := by
  unfold Resolved processing? at h
  split at h
  · next streamed hstreamed =>
      split at h
      · next heq => exact .inl ⟨heq ▸ hstreamed, (Option.some.inj h).symm⟩
      · cases h
  · next hstreamed => exact .inr ⟨hstreamed, h⟩

theorem digest_of_gathered? {mechanism : Mechanism} {family : KeyFamily}
    {digest : Option DigestAlgorithm} {a : DigestAlgorithm}
    (h : gathered? mechanism family digest = some (.digestHere a)) : digest = some a := by
  unfold gathered? at h
  split at h <;> cases h <;> rfl

/-- What is digested on this side is the algorithm's own digest. -/
theorem Resolved.digest_eq {a : DigestAlgorithm} (h : scheme.Resolved)
    (hproc : scheme.processing = .digestHere a) : scheme.algorithm.digest = some a := by
  rcases h.cases with ⟨_, hstream⟩ | ⟨_, hgathered⟩
  · cases hproc.symm.trans hstream
  · exact digest_of_gathered? (hproc ▸ hgathered)

theorem raw_of_gathered? {mechanism : Mechanism} {family : KeyFamily}
    {digest : Option DigestAlgorithm} {rule : LengthRule}
    (h : gathered? mechanism family digest = some (.raw rule)) :
    digest = none
      ∧ ((family = .dsa ∧ mechanism = .dsa ∧ rule = .exact rawDsaLength)
        ∨ (family = .ec ∧ mechanism = .ecdsa ∧ rule = .atMost rawEcdsaMax)) := by
  unfold gathered? at h
  split at h <;> cases h
  · exact ⟨rfl, .inl ⟨rfl, rfl, rfl⟩⟩
  · exact ⟨rfl, .inr ⟨rfl, rfl, rfl⟩⟩

theorem algorithm_of_digest_none {algorithm : SignatureAlgorithm} (h : algorithm.digest = none) :
    algorithm = .noneWithDsa ∨ algorithm = .noneWithEcdsa := by
  cases algorithm <;> first
    | exact .inl rfl
    | exact .inr rfl
    | cases h

/-- RSA algorithms sign digests. -/
theorem exists_digest_of_rsa (h : scheme.family = .rsa) :
    ∃ a, scheme.algorithm.digest = some a := by
  cases hdigest : scheme.algorithm.digest with
  | some a => exact ⟨a, rfl⟩
  | none =>
      unfold family at h
      rcases algorithm_of_digest_none hdigest with halgorithm | halgorithm <;>
        rw [halgorithm] at h <;> cases h

/-- Data is signed as given by the two algorithms without a digest, each with its own rule. -/
theorem Resolved.raw_cases {rule : LengthRule} (h : scheme.Resolved)
    (hproc : scheme.processing = .raw rule) :
    (scheme.algorithm = .noneWithDsa ∧ scheme.mechanism = .dsa ∧ rule = .exact rawDsaLength)
      ∨ (scheme.algorithm = .noneWithEcdsa ∧ scheme.mechanism = .ecdsa
        ∧ rule = .atMost rawEcdsaMax) := by
  rcases h.cases with ⟨_, hstream⟩ | ⟨_, hgathered⟩
  · cases hproc.symm.trans hstream
  · obtain ⟨hdigest, hrule⟩ := raw_of_gathered? (hproc ▸ hgathered)
    rcases algorithm_of_digest_none hdigest with halgorithm | halgorithm <;>
      rw [halgorithm] at hrule <;> rcases hrule with ⟨hfamily, hrule⟩ | ⟨hfamily, hrule⟩
    · exact .inl ⟨halgorithm, hrule⟩
    · cases hfamily
    · cases hfamily
    · exact .inr ⟨halgorithm, hrule⟩

/-! ## Keys -/

variable {key : Key}

theorem family_of_acceptKey {mode : OperationMode} (h : scheme.acceptKey key mode = .ok ()) :
    key.family = scheme.family ∧ key.half = mode.half := by
  unfold acceptKey at h
  split at h
  · cases h
  · next hfamily =>
      split at h
      · cases h
      · next hhalf => exact ⟨Decidable.not_not.mp hfamily, Decidable.not_not.mp hhalf⟩

/-- What a padded block has to hold is known, so only its size decides. -/
theorem acceptHeadroom_eq {a : DigestAlgorithm} {padding : BlockPadding}
    (hpadding : BlockPadding.ofBits key.bits = .ok padding)
    (hdigest : scheme.algorithm.digest = some a) :
    scheme.acceptHeadroom key
      = if DigestInfo.standardLength a ≤ padding.capacity then .ok ()
        else .error .tooShortForDigest := by
  simp only [acceptHeadroom, hpadding, hdigest, DigestInfo.announcedLength_eq]

/-- A fault that the check of family and half finds is one of the key. -/
theorem ofKeyFault_of_acceptKey {mode : OperationMode} {fault : KeyFault}
    (h : scheme.acceptKey key mode = .error fault) :
    EngineError.ofKeyFault fault = .unacceptableKey fault := by
  unfold acceptKey at h
  split at h
  · cases h; rfl
  · split at h
    · cases h; rfl
    · cases h

theorem ofKeyFault_of_acceptBounds {sizes : KeySizeRange} {fault : KeyFault}
    (h : scheme.acceptBounds key sizes = .error fault) :
    EngineError.ofKeyFault fault = .unacceptableKey fault := by
  unfold acceptBounds at h
  split at h
  · cases h; rfl
  · split at h
    · cases h; rfl
    · cases h

theorem ofKeyFault_of_acceptHeadroom {fault : KeyFault}
    (h : scheme.acceptHeadroom key = .error fault) :
    EngineError.ofKeyFault fault = .unacceptableKey fault := by
  cases hpadding : BlockPadding.ofBits key.bits with
  | error cause =>
      simp only [acceptHeadroom, hpadding] at h
      cases h; rfl
  | ok padding =>
      cases hdigest : scheme.algorithm.digest with
      | none =>
          simp only [acceptHeadroom, hpadding, hdigest] at h
          cases h
      | some a =>
          rw [acceptHeadroom_eq hpadding hdigest] at h
          split at h
          · cases h
          · cases h; rfl

/-- **So is one that the check of the size finds**: how much a padded block has to hold can always be
    told, so nothing but the key is at fault. -/
theorem ofKeyFault_of_acceptSize {sizes : Option KeySizeRange} {fault : KeyFault}
    (h : scheme.acceptSize key sizes = .error fault) :
    EngineError.ofKeyFault fault = .unacceptableKey fault := by
  have hheadroom (h : (if key.family = .rsa then scheme.acceptHeadroom key else .ok ())
      = .error fault) : EngineError.ofKeyFault fault = .unacceptableKey fault := by
    split at h
    · exact ofKeyFault_of_acceptHeadroom h
    · cases h
  cases sizes with
  | none => exact hheadroom h
  | some sizes =>
      cases hbounds : scheme.acceptBounds key sizes with
      | error fault' =>
          simp only [acceptSize, hbounds] at h
          cases h
          exact ofKeyFault_of_acceptBounds hbounds
      | ok u =>
          simp only [acceptSize, hbounds] at h
          exact hheadroom h

/-- The blocks of an RSA key hold the digest of the algorithm. -/
def Roomy (scheme : Scheme) (key : Key) : Prop :=
  key.family = .rsa → scheme.acceptHeadroom key = .ok ()

/-- An RSA key of an accepted size has room for the digest, whatever sizes the token announces. -/
theorem roomy_of_acceptSize {sizes : Option KeySizeRange}
    (h : scheme.acceptSize key sizes = .ok ()) : scheme.Roomy key := by
  intro hrsa
  unfold acceptSize at h
  rw [if_pos hrsa] at h
  cases sizes with
  | none => exact h
  | some sizes =>
      dsimp only at h
      cases hbounds : scheme.acceptBounds key sizes with
      | error fault =>
          rw [hbounds] at h
          cases h
      | ok u =>
          rw [hbounds] at h
          exact h

theorem padding_of_headroom {a : DigestAlgorithm} (h : scheme.acceptHeadroom key = .ok ())
    (hdigest : scheme.algorithm.digest = some a) :
    ∃ padding, BlockPadding.ofBits key.bits = .ok padding
      ∧ DigestInfo.standardLength a ≤ padding.capacity := by
  cases hpadding : BlockPadding.ofBits key.bits with
  | error cause =>
      simp only [acceptHeadroom, hpadding] at h
      cases h
  | ok padding =>
      rw [acceptHeadroom_eq hpadding hdigest] at h
      split at h
      · next hfits => exact ⟨padding, rfl, hfits⟩
      · cases h

/-- The scheme can be used with the key: it is of the right family, and a block of its size holds
    the digest. -/
structure Suits (scheme : Scheme) (key : Key) : Prop where
  resolved : scheme.Resolved
  family_eq : key.family = scheme.family
  roomy : scheme.Roomy key

end Cryptoki.Scheme
