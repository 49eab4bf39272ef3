import Cryptoki.Proofs.Engine.Outcomes
import Cryptoki.Proofs.KeyAcceptance

/-!
# `Cryptoki.Proofs.Engine.Presented` — what a message becomes for the token

In its last call of an operation the token is given the message, its digest, or the digest in the
form that belongs to its key. An engine computes this from the parts it holds, and arrives at what
the scheme says of their concatenation.

## Contents
- `Scheme.presented` — what the token is given to sign or to verify.
- `Engine.paddedFor_of_tokenForm` — a block is made of a digest with its name.
- `Engine.finalInput_ofParts` — an engine gives the message of its parts.
- `Scheme.Last`, `Engine.Concludes.last` — the last call of an operation on a message.
-/

namespace Cryptoki

/-! ## Forms of the message -/

/-- What the token is given to sign or to verify: the message, its digest, the digest with the name
    of its algorithm, or a padded block of that. -/
def Scheme.presented (scheme : Scheme) (key : Key) (message : Bytes) : Bytes :=
  match scheme.processing with
  | .stream | .raw _ => message
  | .digestHere a =>
    let hash := a.digest message
    if scheme.family ≠ .rsa then hash
    else if scheme.mechanism = .rsaX509 then
      BlockPadding.block key.bytes (DigestInfo.encoding a hash)
    else DigestInfo.encoding a hash

/-- Where the scheme asks for a block, the data is as long as the modulus of the key. -/
def Scheme.FillsKey (scheme : Scheme) (key : Key) (data : Bytes) : Prop :=
  ∀ a, scheme.processing = .digestHere a → scheme.family = .rsa → scheme.mechanism = .rsaX509 →
    data.length = key.bytes

theorem Scheme.wrappedDigest_of_rsa {scheme : Scheme} {a : DigestAlgorithm}
    (hproc : scheme.processing = .digestHere a) (hrsa : scheme.family = .rsa) :
    scheme.wrappedDigest = some a := by
  simp only [wrappedDigest, hproc, hrsa]

theorem Scheme.wrappedDigest_of_ne_rsa {scheme : Scheme} (hrsa : scheme.family ≠ .rsa) :
    scheme.wrappedDigest = none := by
  unfold wrappedDigest
  split
  · next heq _ => exact absurd heq hrsa
  · rfl

theorem Scheme.wrappedDigest_of_raw {scheme : Scheme} {rule : LengthRule}
    (hproc : scheme.processing = .raw rule) : scheme.wrappedDigest = none := by
  unfold wrappedDigest
  split
  · next heq => rw [hproc] at heq; cases heq
  · rfl

/-- A mechanism that leaves the padding to this side leaves digest and name to it as well. -/
theorem Scheme.Resolved.exists_wrappedDigest {scheme : Scheme} (h : scheme.Resolved)
    (hx509 : scheme.mechanism = .rsaX509) : ∃ a, scheme.wrappedDigest = some a := by
  rcases h.cases with ⟨hstreamed, _⟩ | ⟨_, hgathered⟩
  · rw [hx509] at hstreamed
    cases hstreamed
  · rw [hx509] at hgathered
    generalize hfamily : scheme.algorithm.family = family at hgathered
    cases family with
    | rsa =>
        obtain ⟨a, hdigest⟩ := exists_digest_of_rsa hfamily
        rw [hdigest] at hgathered
        exact ⟨a, wrappedDigest_of_rsa (Option.some.inj hgathered).symm hfamily⟩
    | dsa | ec => cases hgathered

namespace Engine

/-- Where the scheme asks for a block, a digest is encoded and padded for the key. -/
theorem paddedFor_of_tokenForm {e : Engine} {key : Key} {a : DigestAlgorithm} {hash block : Bytes}
    (hwrapped : e.scheme.wrappedDigest = some a) (hx509 : e.scheme.mechanism = .rsaX509)
    (hkey : e.key = some key) (h : e.tokenForm hash = .ok block) :
    ∃ padding info, DigestInfo.PaddedFor key.bits a hash padding info block := by
  have hpads : e.scheme.padsHere = true := by simpa [Scheme.padsHere] using hx509
  simp only [tokenForm, hwrapped, hkey, if_pos hpads] at h
  split at h
  · cases h
  · next info hinfo =>
      split at h
      · cases h
      · next padding hpadding =>
          cases hpad : padding.pad info with
          | error cause =>
              rw [hpad] at h
              cases h
          | ok out =>
              rw [hpad] at h
              obtain rfl := Except.ok.inj h
              exact ⟨padding, info, hpadding, hinfo, hpad⟩

/-- A digest with its name is padded for the key where the scheme asks for it. -/
theorem tokenForm_padded {e : Engine} {key : Key} {a : DigestAlgorithm} {message data : Bytes}
    (hproc : e.scheme.processing = .digestHere a) (hrsa : e.scheme.family = .rsa)
    (hx509 : e.scheme.mechanism = .rsaX509) (hkey : e.key = some key)
    (h : e.tokenForm (a.digest message) = .ok data) :
    data = BlockPadding.block key.bytes (DigestInfo.encoding a (a.digest message))
      ∧ data.length = key.bytes := by
  obtain ⟨padding, info, hpadded⟩ :=
    paddedFor_of_tokenForm (Scheme.wrappedDigest_of_rsa hproc hrsa) hx509 hkey h
  have hsize : padding.size = key.bytes := BlockPadding.size_of_ofBits hpadded.sized
  obtain ⟨_, rfl⟩ := DigestInfo.encode_eq_ok_iff.mp hpadded.encoded
  rw [← hsize]
  exact BlockPadding.length_of_pad hpadded.padded

/-- A digest is brought to the form that the scheme presents. -/
theorem tokenForm_ok {e : Engine} {key : Key} {a : DigestAlgorithm} {message data : Bytes}
    (hproc : e.scheme.processing = .digestHere a) (hkey : e.key = some key)
    (h : e.tokenForm (a.digest message) = .ok data) :
    data = e.scheme.presented key message ∧ e.scheme.FillsKey key data := by
  simp only [Scheme.presented, hproc]
  by_cases hrsa : e.scheme.family = .rsa
  · rw [if_neg (not_not_intro hrsa)]
    by_cases hx509 : e.scheme.mechanism = .rsaX509
    · obtain ⟨hdata, hlength⟩ := tokenForm_padded hproc hrsa hx509 hkey h
      rw [if_pos hx509]
      exact ⟨hdata, fun _ _ _ _ => hlength⟩
    · have hpads : ¬ e.scheme.padsHere = true := by simpa [Scheme.padsHere] using hx509
      simp only [tokenForm, Scheme.wrappedDigest_of_rsa hproc hrsa, if_neg hpads] at h
      split at h
      · cases h
      · next info hinfo =>
          obtain ⟨_, rfl⟩ := DigestInfo.encode_eq_ok_iff.mp hinfo
          rw [if_neg hx509]
          exact ⟨(Except.ok.inj h).symm, fun _ _ _ hmech => absurd hmech hx509⟩
  · rw [tokenForm, Scheme.wrappedDigest_of_ne_rsa hrsa] at h
    rw [if_pos hrsa]
    exact ⟨(Except.ok.inj h).symm, fun _ _ hfamily => absurd hfamily hrsa⟩

variable {e : Engine} {key : Key} {parts : List Bytes} {data : Bytes}

/-- A local digest ends as the digest of the parts. -/
theorem finalInput_of_digest {a : DigestAlgorithm} (hproc : e.scheme.processing = .digestHere a)
    (hpending : e.pending = .ofParts e.scheme.processing parts) (h : e.finalInput.1 = .ok data) :
    e.tokenForm (a.digest parts.flatten) = .ok data := by
  have htake := PendingInput.takeDigest_ofParts a parts
  rw [← hproc, ← hpending] at htake
  simp only [finalInput, hproc] at h
  split at h
  · next hash pending hout =>
      rw [hout] at htake
      rw [← Except.ok.inj htake]
      exact h
  · next err pending hout =>
      rw [hout] at htake
      cases htake

/-- Gathered input ends as the parts themselves. -/
theorem finalInput_of_raw {rule : LengthRule} (hproc : e.scheme.processing = .raw rule)
    (hpending : e.pending = .ofParts e.scheme.processing parts) (h : e.finalInput.1 = .ok data) :
    data = parts.flatten := by
  have hgathered := PendingInput.gathered_ofParts rule parts
  rw [← hproc, ← hpending] at hgathered
  simp only [finalInput, hproc, hgathered] at h
  by_cases hallows : rule.Allows parts.flatten.length
  · rw [if_pos hallows] at h
    simp only [tokenForm, Scheme.wrappedDigest_of_raw hproc] at h
    exact (Except.ok.inj h).symm
  · rw [if_neg hallows] at h
    cases h

/-- What an engine gives the token in the last call is its message, in the form that the scheme
    presents. -/
theorem finalInput_ofParts (hkey : e.key = some key)
    (hpending : e.pending = .ofParts e.scheme.processing parts) (h : e.finalInput.1 = .ok data) :
    data = e.scheme.presented key parts.flatten ∧ e.scheme.FillsKey key data := by
  cases hproc : e.scheme.processing with
  | digestHere a => exact tokenForm_ok hproc hkey (finalInput_of_digest hproc hpending h)
  | raw rule =>
      obtain rfl := finalInput_of_raw hproc hpending h
      constructor
      · simp only [Scheme.presented, hproc]
      · intro a hdigest
        cases hproc.symm.trans hdigest
  | stream =>
      simp only [finalInput, hproc] at h
      cases h

end Engine

/-! ## The last call -/

/-- The last call of an operation on a message, by how the engine is asked to end it. -/
inductive Scheme.Last (scheme : Scheme) (key : Key) (message : Bytes) :
    Engine.Request → Primitive → Prop
  | signFinal (hproc : scheme.processing = .stream) :
      Last scheme key message .sign (.signFinal scheme.expectedLength)
  | sign (hproc : scheme.processing ≠ .stream)
      (hfills : scheme.FillsKey key (scheme.presented key message)) :
      Last scheme key message .sign (.sign (scheme.presented key message))
  | verifyFinal {signature block : Bytes} (hproc : scheme.processing = .stream)
      (hblock : Engine.decodeSignature scheme signature = .ok block) :
      Last scheme key message (.verify signature) (.verifyFinal block)
  | verify {signature block : Bytes} (hproc : scheme.processing ≠ .stream)
      (hfills : scheme.FillsKey key (scheme.presented key message))
      (hblock : Engine.decodeSignature scheme signature = .ok block) :
      Last scheme key message (.verify signature) (.verify (scheme.presented key message) block)

namespace Engine

/-- An engine ends an operation with the parts it holds. -/
theorem Concludes.last {e : Engine} {request : Request} {primitive : Primitive} {key : Key}
    {parts : List Bytes} (h : e.Concludes request primitive) (hkey : e.key = some key)
    (hpending : e.pending = .ofParts e.scheme.processing parts) :
    e.scheme.Last key parts.flatten request primitive := by
  cases h with
  | signStreamed hproc => exact .signFinal hproc
  | verifyStreamed hproc hblock => exact .verifyFinal hproc hblock
  | sign hproc hinput =>
      obtain ⟨rfl, hfills⟩ := finalInput_ofParts hkey hpending hinput
      exact .sign hproc hfills
  | verify hproc hblock hinput =>
      obtain ⟨rfl, hfills⟩ := finalInput_ofParts hkey hpending hinput
      exact .verify hproc hfills hblock

end Engine

end Cryptoki
