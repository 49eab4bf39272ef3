import Cryptoki.Proofs.Engine.Finish
import Cryptoki.Proofs.Token.Keys
import Cryptoki.Proofs.Token.Mechanisms
import Cryptoki.Proofs.Token.ScalarPair

/-!
# `Cryptoki.Proofs.Token.Signing` — what keys sign, whatever the mechanism

Digest, name and padding are put on by the scheme or by the token, as the mechanism has it, and the
token takes off what the key operations put on themselves. In the end the key signs the same payload
of a message on every mechanism of an algorithm. So signature and verdict are functions of pair,
algorithm and message.

## Contents
- `SignatureAlgorithm.payload` — what a key signs for a message.
- `Scheme.keyInput` — the input of the key operation, as the token sees it.
- `Scheme.Suits.rsaPayload`, `Scheme.Resolved.keyInput_eq` — it comes to the payload.
- `KeySecret.signature?`, `KeySecret.accepts` — signature and verdict, as callers see them.
- `Scheme.Suits.signReport_eq`, `Scheme.Suits.verdictOf_eq` — what the token's answers come to.
- `KeyOperations.RoundTrips`, `KeyOperations.RoundTrips.accepts` — signatures that verify.
- `KeyOperations.Signs`, `Scheme.Suits.sign_isOk`, `Scheme.Suits.denies_of_verify` — answers to
  calls that end an operation, whatever they are asked about.
-/

namespace Cryptoki

/-! ## Payloads -/

/-- What a key signs for a message: the message, its digest, or for RSA the digest with the name of
    its algorithm. -/
def SignatureAlgorithm.payload (algorithm : SignatureAlgorithm) (message : Bytes) : Bytes :=
  match algorithm.digest with
  | none => message
  | some a =>
    if algorithm.family = .rsa then DigestInfo.encoding a (a.digest message) else a.digest message

namespace Scheme

/-- The input of the key operation: the token's digest, or what the token is given. -/
def keyInput (scheme : Scheme) (key : Key) (message : Bytes) : Bytes :=
  match scheme.mechanism.digest? with
  | some a => a.digest message
  | none => scheme.presented key message

variable {scheme : Scheme} {key : Key}

theorem payload_of_rsa {a : DigestAlgorithm} (hrsa : scheme.family = .rsa)
    (hdigest : scheme.algorithm.digest = some a) (message : Bytes) :
    scheme.algorithm.payload message = DigestInfo.encoding a (a.digest message) := by
  simp only [SignatureAlgorithm.payload, hdigest]
  exact if_pos hrsa

theorem payload_of_ne_rsa {a : DigestAlgorithm} (hrsa : scheme.family ≠ .rsa)
    (hdigest : scheme.algorithm.digest = some a) (message : Bytes) :
    scheme.algorithm.payload message = a.digest message := by
  simp only [SignatureAlgorithm.payload, hdigest]
  exact if_neg hrsa

/-- A key that is not RSA signs what the token is given, or digests, as it is. -/
theorem Resolved.keyInput_eq (h : scheme.Resolved) (hec : scheme.family = .ec) (key : Key)
    (message : Bytes) : scheme.keyInput key message = scheme.algorithm.payload message := by
  have hdsa : scheme.family ≠ .dsa := by simp [hec]
  have hrsa : scheme.family ≠ .rsa := by simp [hec]
  by_cases hstream : scheme.processing = .stream
  · obtain ⟨a, hdigest, hmechanism⟩ := h.digests hdsa hstream
    simp only [keyInput, hmechanism, payload_of_ne_rsa hrsa hdigest]
  · simp only [keyInput, h.gathers hdsa hstream, presented]
    cases hproc : scheme.processing with
    | stream => exact absurd hproc hstream
    | raw rule => simp only [SignatureAlgorithm.payload, (h.raw hproc).1]
    | digestHere a =>
        rw [payload_of_ne_rsa hrsa (h.digest_eq hproc)]
        exact if_pos hrsa

/-! ## Payloads of RSA keys -/

/-- The digest of an RSA algorithm, and a block of the key's size that holds it. -/
theorem Suits.rsa_digest (h : scheme.Suits key) (hrsa : scheme.family = .rsa) :
    ∃ a padding, scheme.algorithm.digest = some a ∧ BlockPadding.new key.bytes = .ok padding
      ∧ DigestInfo.standardLength a ≤ padding.capacity := by
  obtain ⟨a, hdigest⟩ := exists_digest_of_rsa hrsa
  obtain ⟨padding, hpadding, hfits⟩ :=
    padding_of_headroom (h.roomy (h.family_eq.trans hrsa)) hdigest
  exact ⟨a, padding, hdigest, hpadding, hfits⟩

/-- **An RSA key signs the same payload on every mechanism**: what the scheme has padded is unpadded
    by the token, and what it has not named is named there. -/
theorem Suits.rsaPayload (h : scheme.Suits key) (hrsa : scheme.family = .rsa) (message : Bytes) :
    scheme.mechanism.rsaPayload key.bytes (scheme.keyInput key message)
      = .ok (scheme.algorithm.payload message) := by
  have hdsa : scheme.family ≠ .dsa := by simp [hrsa]
  obtain ⟨a, padding, hdigest, hpadding, hfits⟩ := h.rsa_digest hrsa
  have hsize : padding.size = key.bytes := BlockPadding.size_of_ofBits hpadding
  rw [payload_of_rsa hrsa hdigest]
  rw [← DigestInfo.length_encoding_digest a message] at hfits
  unfold Mechanism.rsaPayload keyInput
  rw [hpadding]
  by_cases hstream : scheme.processing = .stream
  · obtain ⟨b, hsame, hmechanism⟩ := h.resolved.digests hdsa hstream
    obtain rfl := Option.some.inj (hdigest.symm.trans hsame)
    rw [hmechanism]
    dsimp only
    rw [DigestInfo.encode_digest]
    exact if_pos hfits
  · rw [h.resolved.gathers hdsa hstream]
    have hproc : scheme.processing = .digestHere a := by
      cases hproc : scheme.processing with
      | stream => exact absurd hproc hstream
      | raw rule => exact absurd hrsa (h.resolved.raw hproc).2.1
      | digestHere b =>
          rw [← Option.some.inj (hdigest.symm.trans (h.resolved.digest_eq hproc))]
    simp only [presented, hproc, ne_eq, hrsa, not_true_eq_false, if_false]
    by_cases hx509 : scheme.mechanism = .rsaX509
    · simp only [if_pos hx509, ← hsize]
      show (padding.unpad _).mapError _ >>= _ = _
      rw [BlockPadding.unpad_block hfits]
      exact if_pos hfits
    · simp only [if_neg hx509]
      exact if_pos hfits

/-- The payload of an RSA key leaves room for the padding. -/
theorem Suits.length_payload (h : scheme.Suits key) (hrsa : scheme.family = .rsa)
    (message : Bytes) :
    (scheme.algorithm.payload message).length + paddingOverhead ≤ key.bytes := by
  obtain ⟨a, padding, hdigest, hpadding, hfits⟩ := h.rsa_digest hrsa
  have hsize : padding.size = key.bytes := BlockPadding.size_of_ofBits hpadding
  have hmin : minPaddedSize ≤ padding.size := padding.min_le_size
  rw [payload_of_rsa hrsa hdigest, DigestInfo.length_encoding_digest]
  simp only [BlockPadding.capacity, paddingOverhead, minPaddedSize] at *
  omega

end Scheme

/-! ## Signatures and verdicts -/

namespace KeySecret

/-- The signature that a pair makes of a payload, as callers see it. -/
def signature? (ops : KeyOperations) : KeySecret → Bytes → Option Bytes
  | rsa k, payload => (ops.rsaSign k payload).map (·.val)
  | ec k, payload =>
    (ops.ecdsaSign k payload).bind fun s => (SignatureValue.derOfBlock s.val).toOption

/-- Whether callers are told that a signature of a payload verifies. -/
def accepts (ops : KeyOperations) : KeySecret → Bytes → Bytes → Bool
  | rsa k, payload, signature =>
    if h : signature.length = k.size then ops.rsaVerify k.toPublicKey payload ⟨signature, h⟩
    else false
  | ec k, payload, signature =>
    match SignatureValue.ecdsaBlock signature with
    | .error _ => false
    | .ok block =>
      match scalarPair? block with
      | some s => ops.ecdsaVerify k.publicKey payload s
      | none => false

end KeySecret

namespace Scheme

variable {scheme : Scheme} {key : Key} {ops : KeyOperations} {secret : KeySecret}

/-- A described key has the size that the token works with. -/
theorem bytes_of_params {k : Rsa.PrivateKey} (h : key.params = (KeySecret.rsa k).params) :
    key.bytes = k.size := by
  have hbits : key.bits = Bytes.natBits k.modulus := by
    rw [Key.bits, h]
    exact Bytes.bitLength_ofNat k.modulus
  rw [Key.bytes, hbits]
  rfl

/-- A scheme that suits the key of a pair is for the family of the pair. -/
theorem Suits.family_secret (h : scheme.Suits key) (hparams : key.params = secret.params) :
    scheme.family = secret.family := by
  rw [← h.family_eq, Key.family, hparams, secret.family_params]

theorem Suits.family_ne_dsa (h : scheme.Suits key) (hparams : key.params = secret.params) :
    scheme.family ≠ .dsa := h.family_secret hparams ▸ secret.family_ne_dsa

/-- **The signature of a message is that of its payload**, on every mechanism. -/
theorem Suits.signReport_eq (h : scheme.Suits key) (hparams : key.params = secret.params)
    (operation : Operation) (message : Bytes) :
    (Engine.signReport scheme operation
      ((secret.stored .privateKey).sign ops scheme.mechanism (scheme.keyInput key message))).toOption
        = secret.signature? ops (scheme.algorithm.payload message) := by
  have hfamily := h.family_secret hparams
  cases secret with
  | rsa k =>
      have hpayload := h.rsaPayload hfamily message
      rw [bytes_of_params hparams] at hpayload
      have hpair : ¬ scheme.hasPairSignatures = true := by
        simp [hasPairSignatures, hfamily, KeySecret.family]
      simp only [KeySecret.stored, StoredKey.sign, hpayload, bind, Except.bind, KeySecret.signature?]
      cases ops.rsaSign k (scheme.algorithm.payload message) with
      | none => rfl
      | some s =>
          show (Engine.encodeSignature scheme s.val).toOption = some s.val
          rw [Engine.encodeSignature, if_neg hpair]
          rfl
  | ec k =>
      have hpair : scheme.hasPairSignatures = true := by
        simp [hasPairSignatures, hfamily, KeySecret.family]
      simp only [KeySecret.stored, StoredKey.sign, h.resolved.keyInput_eq hfamily,
        KeySecret.signature?]
      cases ops.ecdsaSign k (scheme.algorithm.payload message) with
      | none => rfl
      | some s =>
          show (Engine.encodeSignature scheme s.val).toOption
            = (SignatureValue.derOfBlock s.val).toOption
          rw [Engine.encodeSignature, if_pos hpair]
          cases SignatureValue.derOfBlock s.val <;> rfl

/-- **So is the verdict on a signature**: what is denied by this side is denied by the pair. -/
theorem Suits.accepts_unread {cause : DecodeError} {signature : Bytes} (h : scheme.Suits key)
    (hparams : key.params = secret.params)
    (hdecode : Engine.decodeSignature scheme signature = .error cause) (payload : Bytes) :
    secret.accepts ops payload signature = false := by
  have hfamily := h.family_secret hparams
  cases secret with
  | rsa k =>
      simp [Engine.decodeSignature, hasPairSignatures, hfamily, KeySecret.family] at hdecode
  | ec k =>
      have hblock : SignatureValue.ecdsaBlock signature = .error cause := by
        simpa [Engine.decodeSignature, hasPairSignatures, hfamily, KeySecret.family] using hdecode
      simp only [KeySecret.accepts, hblock]

/-- What the token denies is no failure, but a verdict. -/
theorem verdictOf_verdict (operation : Operation) (success : Bool) :
    Engine.verdictOf operation (verdict .signatureInvalid success) = .ok success := by
  cases success <;> rfl

theorem Suits.verdictOf_eq {signature block : Bytes} (h : scheme.Suits key)
    (hparams : key.params = secret.params)
    (hdecode : Engine.decodeSignature scheme signature = .ok block) (operation : Operation)
    (message : Bytes) :
    Engine.verdictOf operation
      ((secret.stored .publicKey).verify ops scheme.mechanism (scheme.keyInput key message) block)
        = .ok (secret.accepts ops (scheme.algorithm.payload message) signature) := by
  have hfamily := h.family_secret hparams
  cases secret with
  | rsa k =>
      have hpayload := h.rsaPayload hfamily message
      rw [bytes_of_params hparams] at hpayload
      have hsame : signature = block := by
        simpa [Engine.decodeSignature, hasPairSignatures, hfamily, KeySecret.family] using hdecode
      subst hsame
      simp only [KeySecret.stored, StoredKey.verify, KeySecret.accepts]
      split
      · rw [hpayload]
        exact verdictOf_verdict operation _
      · rfl
  | ec k =>
      have hblock : SignatureValue.ecdsaBlock signature = .ok block := by
        simpa [Engine.decodeSignature, hasPairSignatures, hfamily, KeySecret.family] using hdecode
      simp only [KeySecret.stored, StoredKey.verify, h.resolved.keyInput_eq hfamily,
        KeySecret.accepts, hblock]
      cases scalarPair? block with
      | none => rfl
      | some s => exact verdictOf_verdict operation _

end Scheme

/-! ## Signatures that verify -/

/-- The payloads that a pair signs: RSA leaves room for the padding, and ECDSA refuses what is very
    short. -/
def KeySecret.Takes : KeySecret → Bytes → Prop
  | rsa k, payload => payload.length + paddingOverhead ≤ k.size
  | ec _, payload => Ecdsa.minPrehash ≤ payload.length

/-- The key operations sign each payload that a pair takes, and the signature verifies. -/
def KeyOperations.RoundTrips (ops : KeyOperations) : KeySecret → Prop
  | .rsa k => ∀ payload, (KeySecret.rsa k).Takes payload →
    ∃ s, ops.rsaSign k payload = some s ∧ ops.rsaVerify k.toPublicKey payload s = true
  | .ec k => ∀ payload, (KeySecret.ec k).Takes payload →
    ∃ s, ops.ecdsaSign k payload = some s ∧ ops.ecdsaVerify k.publicKey payload s = true

/-- Callers see a signature that verifies. -/
theorem KeyOperations.RoundTrips.accepts {ops : KeyOperations} {secret : KeySecret}
    {payload : Bytes} (h : ops.RoundTrips secret) (htakes : secret.Takes payload) :
    ∃ signature, secret.signature? ops payload = some signature
      ∧ secret.accepts ops payload signature = true := by
  cases secret with
  | rsa k =>
      obtain ⟨s, hsign, hverify⟩ := h payload htakes
      refine ⟨s.val, ?_, ?_⟩
      · simp only [KeySecret.signature?, hsign, Option.map_some]
      · simp only [KeySecret.accepts]
        exact (dif_pos s.property).trans hverify
  | ec k =>
      obtain ⟨s, hsign, hverify⟩ := h payload htakes
      obtain ⟨d, block, hder, hblock, hpair⟩ := SignatureValue.scalarPair?_ecdsaBlock s
      refine ⟨d, ?_, ?_⟩
      · simp only [KeySecret.signature?, hsign, Option.bind_some, hder]
        rfl
      · simp only [KeySecret.accepts, hblock, hpair, hverify]

/-- A pair takes the payload of every message, but for those that an algorithm without a digest is
    given too short. -/
theorem Scheme.Suits.takes {scheme : Scheme} {key : Key} {secret : KeySecret} {message : Bytes}
    (h : scheme.Suits key) (hparams : key.params = secret.params)
    (hraw : scheme.algorithm.digest = none → Ecdsa.minPrehash ≤ message.length) :
    secret.Takes (scheme.algorithm.payload message) := by
  have hfamily := h.family_secret hparams
  cases secret with
  | rsa k =>
      show _ ≤ k.size
      rw [← bytes_of_params hparams]
      exact h.length_payload hfamily message
  | ec k =>
      show Ecdsa.minPrehash ≤ _
      have hrsa : scheme.family ≠ .rsa := by simp [hfamily, KeySecret.family]
      cases hdigest : scheme.algorithm.digest with
      | none =>
          simp only [SignatureAlgorithm.payload, hdigest]
          exact hraw hdigest
      | some a =>
          have hlong : Ecdsa.minPrehash ≤ a.outputLength := by cases a <;> decide
          rw [payload_of_ne_rsa hrsa hdigest, a.length_digest]
          exact hlong

/-! ## Calls that do not fail -/

/-- The key operations sign each payload that a pair takes. -/
def KeyOperations.Signs (ops : KeyOperations) : KeySecret → Prop
  | .rsa k => ∀ payload, (KeySecret.rsa k).Takes payload → (ops.rsaSign k payload).isSome
  | .ec k => ∀ payload, (KeySecret.ec k).Takes payload → (ops.ecdsaSign k payload).isSome

/-- What is signed to be verified is signed. -/
theorem KeyOperations.RoundTrips.signs {ops : KeyOperations} {secret : KeySecret}
    (h : ops.RoundTrips secret) : ops.Signs secret := by
  cases secret with
  | rsa k =>
      intro payload htakes
      obtain ⟨s, hsign, _⟩ := h payload htakes
      rw [hsign]
      rfl
  | ec k =>
      intro payload htakes
      obtain ⟨s, hsign, _⟩ := h payload htakes
      rw [hsign]
      rfl

namespace Scheme.Suits

variable {scheme : Scheme} {key : Key} {secret : KeySecret} {ops : KeyOperations}

/-- Every message that is digested is signed. -/
theorem sign_isOk (h : scheme.Suits key) (hparams : key.params = secret.params)
    (hsigns : ops.Signs secret) (hdigest : scheme.algorithm.digest ≠ none) (message : Bytes) :
    ∃ block, (secret.stored .privateKey).sign ops scheme.mechanism (scheme.keyInput key message)
      = .ok block := by
  have hfamily := h.family_secret hparams
  have htakes : secret.Takes (scheme.algorithm.payload message) :=
    h.takes hparams fun hnone => absurd hnone hdigest
  cases secret with
  | rsa k =>
      have hpayload := h.rsaPayload hfamily message
      rw [bytes_of_params hparams] at hpayload
      obtain ⟨s, hsign⟩ := Option.isSome_iff_exists.mp (hsigns _ htakes)
      refine ⟨s.val, ?_⟩
      simp only [KeySecret.stored, StoredKey.sign, hpayload, bind, Except.bind, hsign]
  | ec k =>
      obtain ⟨s, hsign⟩ := Option.isSome_iff_exists.mp (hsigns _ htakes)
      refine ⟨s.val, ?_⟩
      simp only [KeySecret.stored, StoredKey.sign, h.resolved.keyInput_eq hfamily, hsign]

/-- Whatever is given as a signature, the token denies it at most. -/
theorem denies_of_verify {block : Bytes} {code : ReturnCode} (h : scheme.Suits key)
    (hparams : key.params = secret.params) (message : Bytes)
    (hverify : (secret.stored .publicKey).verify ops scheme.mechanism
      (scheme.keyInput key message) block = .error code) : code.deniesSignature = true := by
  have hverdict {success : Bool} (hcode : verdict .signatureInvalid success = .error code) :
      code.deniesSignature = true := by
    cases success with
    | true => cases hcode
    | false =>
        obtain rfl := Except.error.inj hcode
        rfl
  have hfamily := h.family_secret hparams
  cases secret with
  | rsa k =>
      have hpayload := h.rsaPayload hfamily message
      rw [bytes_of_params hparams] at hpayload
      simp only [KeySecret.stored, StoredKey.verify, hpayload, bind, Except.bind] at hverify
      split at hverify
      · exact hverdict hverify
      · obtain rfl := Except.error.inj hverify
        rfl
  | ec k =>
      simp only [KeySecret.stored, StoredKey.verify] at hverify
      split at hverify
      · exact hverdict hverify
      · obtain rfl := Except.error.inj hverify
        rfl

end Scheme.Suits

end Cryptoki
