import Cryptoki.DigestInfo
import Cryptoki.Proofs.BlockPadding
import Cryptoki.Proofs.Der
import Cryptoki.Proofs.Digest.Length

/-!
# `Cryptoki.Proofs.DigestInfo` — an encoding names its algorithm and its digest

The encoding is a tagged value made of tagged values, and each of them says where it ends. So whatever
follows, it can be taken apart again: into the name of the algorithm, which is like no other
algorithm's, and the digest, of whatever length. Signatures made with one algorithm are therefore
signatures of nothing else under any other.

## Contents
- `DigestInfo.encode_eq_ok_iff` — the digests that have an encoding.
- `DigestInfo.oidContent_oid`, `DigestInfo.algorithmIdentifier_append_inj` — the names of the algorithms.
- `DigestInfo.encoding_append_inj` — an encoding is found at the front of what follows it.
- `DigestInfo.encode_of_length`, `DigestInfo.encode_digest` — digests of the announced length have
  an encoding.
- `DigestInfo.announcedLength_eq` — its length is always told in advance.
- `DigestInfo.separates` — no encoding starts another, and no block holds two.
-/

namespace Cryptoki.DigestInfo

variable {a a' : DigestAlgorithm} {digest digest' info info' rest rest' : Bytes}

/-! ## Encodings of allowed length -/

/-- A digest has an encoding unless that is too long. -/
theorem encode_eq_ok_iff :
    encode a digest = .ok info ↔
      (encoding a digest).length ≤ Der.maxLength ∧ info = encoding a digest := by
  unfold encode Der.bounded
  split
  · next hfits =>
      constructor
      · intro h
        exact ⟨hfits, (Except.ok.inj h).symm⟩
      · rintro ⟨_, rfl⟩
        rfl
  · next hlong => exact iff_of_false nofun fun h => hlong h.1

/-! ## The names of the algorithms -/

/-- The object identifiers, as they are written. -/
theorem oidContent_oid (a : DigestAlgorithm) :
    Der.oidContent a.oid =
      match a with
      | .md2 => [0x2a, 0x86, 0x48, 0x86, 0xf7, 0x0d, 0x02, 0x02]
      | .md5 => [0x2a, 0x86, 0x48, 0x86, 0xf7, 0x0d, 0x02, 0x05]
      | .sha1 => [0x2b, 0x0e, 0x03, 0x02, 0x1a]
      | .sha224 => [0x60, 0x86, 0x48, 0x01, 0x65, 0x03, 0x04, 0x02, 0x04]
      | .sha256 => [0x60, 0x86, 0x48, 0x01, 0x65, 0x03, 0x04, 0x02, 0x01]
      | .sha384 => [0x60, 0x86, 0x48, 0x01, 0x65, 0x03, 0x04, 0x02, 0x02]
      | .sha512 => [0x60, 0x86, 0x48, 0x01, 0x65, 0x03, 0x04, 0x02, 0x03] := by
  cases a <;> decide +kernel

/-- No two algorithms have the same object identifier. -/
theorem oidContent_inj (h : Der.oidContent a.oid = Der.oidContent a'.oid) : a = a' := by
  rw [oidContent_oid, oidContent_oid] at h
  cases a <;> cases a' <;> first
    | rfl
    | cases h

theorem length_oidContent_le (a : DigestAlgorithm) :
    (Der.oidContent a.oid).length ≤ Der.maxLength := by
  rw [oidContent_oid]
  cases a <;> decide

theorem length_algorithmIdentifier_le (a : DigestAlgorithm) :
    (algorithmIdentifier a).length ≤ Der.maxLength := by
  cases a <;> decide +kernel

/-- A name is found at the front of what follows it. -/
theorem algorithmIdentifier_append_inj
    (h : algorithmIdentifier a ++ rest = algorithmIdentifier a' ++ rest') : a = a' ∧ rest = rest' := by
  have hfits (a : DigestAlgorithm) :=
    (Der.length_lt_length_tlv _ _).le.trans (length_algorithmIdentifier_le a)
  obtain ⟨hcontent, hrest⟩ := Der.tlv_append_inj (hfits a) (hfits a') h
  obtain ⟨hoid, _⟩ :=
    Der.tlv_append_inj (length_oidContent_le a) (length_oidContent_le a') hcontent
  exact ⟨oidContent_inj hoid, hrest⟩

/-! ## The whole -/

/-- A digest is shorter than its encoding. -/
theorem length_lt_length_encoding (a : DigestAlgorithm) (digest : Bytes) :
    digest.length < (encoding a digest).length := by
  have hdigest := Der.length_lt_length_tlv Der.octetStringTag digest
  have hwhole := Der.length_lt_length_tlv Der.sequenceTag
    (algorithmIdentifier a ++ Der.tlv Der.octetStringTag digest)
  rw [List.length_append] at hwhole
  rw [encoding]
  omega

/-- An encoding is found at the front of what follows it, with its algorithm and its digest. -/
theorem encoding_append_inj (hfits : (encoding a digest).length ≤ Der.maxLength)
    (hfits' : (encoding a' digest').length ≤ Der.maxLength)
    (h : encoding a digest ++ rest = encoding a' digest' ++ rest') :
    a = a' ∧ digest = digest' ∧ rest = rest' := by
  -- from the outside in: the sequence, the name in it, and the octets after that
  obtain ⟨hcontent, hrest⟩ := Der.tlv_append_inj
    ((Der.length_lt_length_tlv _ _).le.trans hfits)
    ((Der.length_lt_length_tlv _ _).le.trans hfits') h
  obtain ⟨halgorithm, hoctets⟩ := algorithmIdentifier_append_inj hcontent
  have hdigest := Der.tlv_inj ((length_lt_length_encoding a digest).le.trans hfits)
    ((length_lt_length_encoding a' digest').le.trans hfits') hoctets
  exact ⟨halgorithm, hdigest, hrest⟩

/-- The digest stands at the end. -/
theorem suffix_encoding (a : DigestAlgorithm) (digest : Bytes) : digest <:+ encoding a digest := by
  have hoctets : digest <:+ Der.tlv Der.octetStringTag digest :=
    (List.suffix_append _ _).trans (List.suffix_cons _ _)
  have hcontent : digest <:+ algorithmIdentifier a ++ Der.tlv Der.octetStringTag digest :=
    hoctets.trans (List.suffix_append _ _)
  exact (hcontent.trans (List.suffix_append _ _)).trans (List.suffix_cons _ _)

/-- A digest of the length that the algorithm announces has an encoding, of the length told in
    advance. -/
theorem encode_of_length (h : digest.length = a.outputLength) :
    encode a digest = .ok (encoding a digest)
      ∧ (encoding a digest).length = standardLength a := by
  have hlength : (encoding a digest).length = standardLength a := by
    rw [length_encoding, h]
    rfl
  have hshort : standardLength a ≤ Der.maxLength := by
    cases a <;> decide +kernel
  exact ⟨encode_eq_ok_iff.mpr ⟨hlength.le.trans hshort, rfl⟩, hlength⟩

/-- **The length can always be told in advance.** -/
theorem announcedLength_eq (a : DigestAlgorithm) : announcedLength a = .ok (standardLength a) := by
  obtain ⟨hencode, hlength⟩ := encode_of_length (a := a) (List.length_replicate (a := (0 : UInt8)))
  rw [announcedLength, hencode, ← hlength]
  rfl

/-- A digest of the algorithm's own has an encoding, -/
theorem encode_digest (a : DigestAlgorithm) (message : Bytes) :
    encode a (a.digest message) = .ok (encoding a (a.digest message)) :=
  (encode_of_length (a.length_digest message)).1

/-- and that has the length told in advance. -/
theorem length_encoding_digest (a : DigestAlgorithm) (message : Bytes) :
    (encoding a (a.digest message)).length = standardLength a :=
  (encode_of_length (a.length_digest message)).2

/-- **Encodings of different digests, or under different algorithms, are kept apart.** Neither starts
    the other, so they are not the same, and no block of any size is the padding of both. A digest of
    the length that its algorithm announces has an encoding of exactly the length told in advance, and
    stands at the end of it. -/
theorem separates (h : encode a digest = .ok info) (h' : encode a' digest' = .ok info') :
    (info <+: info' → a = a' ∧ digest = digest')
      ∧ (∀ (p : BlockPadding) (block : Bytes), p.pad info = .ok block → p.pad info' = .ok block →
        a = a' ∧ digest = digest')
      ∧ ∀ (b : DigestAlgorithm) (d : Bytes), d.length = b.outputLength → ∃ encoded,
        encode b d = .ok encoded ∧ encoded.length = standardLength b ∧ d <:+ encoded := by
  obtain ⟨hfits, rfl⟩ := encode_eq_ok_iff.mp h
  obtain ⟨hfits', rfl⟩ := encode_eq_ok_iff.mp h'
  have hstarts (hstart : encoding a digest <+: encoding a' digest') : a = a' ∧ digest = digest' := by
    obtain ⟨rest, hrest⟩ := hstart
    have hwhole : encoding a digest ++ rest = encoding a' digest' ++ [] := by
      rw [hrest, List.append_nil]
    obtain ⟨halgorithm, hdigest, _⟩ := encoding_append_inj hfits hfits' hwhole
    exact ⟨halgorithm, hdigest⟩
  refine ⟨hstarts, ?_, ?_⟩
  · intro p block hpad hpad'
    -- a block holds one payload only
    have hsame := (BlockPadding.pad_eq_ok_iff.mp hpad).data_eq (BlockPadding.pad_eq_ok_iff.mp hpad')
    exact hstarts (hsame ▸ List.prefix_refl _)
  · intro b d hlength
    obtain ⟨hencode, hstandard⟩ := encode_of_length hlength
    exact ⟨_, hencode, hstandard, suffix_encoding b d⟩

/-- Two digests that need length fields of different sizes, one of them the start of the other. -/
theorem separates_of_long :
    let digest : Bytes := List.replicate 100 0x30
    let digest' : Bytes := List.replicate 300 0x30
    encode .md5 digest = .ok (encoding .md5 digest)
      ∧ encode .md5 digest' = .ok (encoding .md5 digest')
      ∧ ¬ encoding .md5 digest <+: encoding .md5 digest' := by
  intro digest digest'
  have h : encode .md5 digest = .ok (encoding .md5 digest) :=
    encode_eq_ok_iff.mpr ⟨by decide +kernel, rfl⟩
  have h' : encode .md5 digest' = .ok (encoding .md5 digest') :=
    encode_eq_ok_iff.mpr ⟨by decide +kernel, rfl⟩
  refine ⟨h, h', fun hstart => ?_⟩
  have hsame := congrArg List.length ((separates h h').1 hstart).2
  simp only [digest, digest', List.length_replicate] at hsame
  omega

end Cryptoki.DigestInfo
