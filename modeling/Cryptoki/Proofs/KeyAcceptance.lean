import Cryptoki.Proofs.DigestInfo
import Cryptoki.Proofs.Scheme

/-!
# `Cryptoki.Proofs.KeyAcceptance` — an RSA key is accepted if digests can be padded for it

When a key is bound, no digest is there yet: the length of its encoding is told in advance, and
compared with what a block of the size of the key holds. When an operation ends, the digest is encoded
and padded in earnest. The two never disagree, so no key that was accepted fails later for its size,
and none is refused that would have done. A padded block starts with a zero, and the modulus with
another byte, so the number of the block is one that the key can work on.

## Contents
- `Scheme.acceptSize_none_iff` — accepted keys, by the length that is told in advance.
- `DigestInfo.PaddedFor` — a digest that was encoded and padded.
- `DigestInfo.exists_paddedFor_iff` — the moduli that digests can be padded for.
- `DigestInfo.PaddedFor.length_eq`, `DigestInfo.PaddedFor.toNat_lt` — size and number of the block.
- `Scheme.headroom_exact` — the check at the start is that of the end.
-/

namespace Cryptoki

/-! ## The check in advance -/

namespace Scheme

variable {scheme : Scheme} {key : Key} {a : DigestAlgorithm}

/-- A key whose sizes the token does not bound is accepted exactly if a block of its size holds the
    encoding of a digest, by the length of that. -/
theorem acceptSize_none_iff (hrsa : key.family = .rsa) (hdigest : scheme.algorithm.digest = some a) :
    scheme.acceptSize key none = .ok () ↔ ∃ padding, BlockPadding.ofBits key.bits = .ok padding
      ∧ DigestInfo.standardLength a ≤ padding.capacity := by
  have hheadroom : scheme.acceptSize key none = scheme.acceptHeadroom key := if_pos hrsa
  rw [hheadroom]
  constructor
  · intro h
    exact padding_of_headroom h hdigest
  · rintro ⟨padding, hpadding, hfits⟩
    rw [acceptHeadroom_eq hpadding hdigest, if_pos hfits]

end Scheme

/-! ## Padding in earnest -/

namespace DigestInfo

variable {bits : Nat} {a : DigestAlgorithm} {digest info block : Bytes} {padding : BlockPadding}

/-- A digest was encoded, and padded to the size of a modulus of `bits` bits. -/
structure PaddedFor (bits : Nat) (a : DigestAlgorithm) (digest : Bytes) (padding : BlockPadding)
    (info block : Bytes) : Prop where
  sized : BlockPadding.ofBits bits = .ok padding
  encoded : encode a digest = .ok info
  padded : padding.pad info = .ok block

/-- A digest of the length that its algorithm announces can be padded exactly if the length of its
    encoding, told in advance, leaves room for the padding. -/
theorem exists_paddedFor_iff (h : digest.length = a.outputLength) :
    (∃ padding info block, PaddedFor bits a digest padding info block) ↔
      ∃ padding, BlockPadding.ofBits bits = .ok padding
        ∧ standardLength a ≤ padding.capacity := by
  obtain ⟨hencode, hlength⟩ := encode_of_length h
  constructor
  · rintro ⟨padding, info, block, hsized, hencoded, hpadded⟩
    obtain rfl := Except.ok.inj (hencoded.symm.trans hencode)
    obtain ⟨hfits, _⟩ := BlockPadding.padded_iff.mp (BlockPadding.pad_eq_ok_iff.mp hpadded)
    exact ⟨padding, hsized, hlength ▸ hfits⟩
  · rintro ⟨padding, hsized, hfits⟩
    rw [← hlength] at hfits
    exact ⟨padding, _, _, hsized, hencode,
      BlockPadding.pad_eq_ok_iff.mpr (BlockPadding.padded_iff.mpr ⟨hfits, rfl⟩)⟩

namespace PaddedFor

variable (h : PaddedFor bits a digest padding info block)
include h

theorem length_eq : block.length = (bits + 7) / 8 := by
  rw [← BlockPadding.size_of_ofBits h.sized]
  exact (BlockPadding.pad_eq_ok_iff.mp h.padded).1

/-- The number of the block is below every modulus that it was padded for. -/
theorem toNat_lt {modulus : Bytes} (hbits : bits = Bytes.bitLength modulus) :
    Bytes.toNat block < Bytes.toNat modulus := by
  have hsize : padding.size = (Bytes.natBits (Bytes.toNat modulus) + 7) / 8 := by
    rw [BlockPadding.size_of_ofBits h.sized, hbits, Bytes.bitLength_eq]
  have hmin : 64 ≤ padding.size := padding.min_le_size
  obtain ⟨hfits, rfl⟩ := BlockPadding.padded_iff.mp (BlockPadding.pad_eq_ok_iff.mp h.padded)
  simp only [BlockPadding.capacity, paddingOverhead] at hfits
  calc Bytes.toNat (BlockPadding.block padding.size info)
      < 256 ^ (padding.size - 1) := BlockPadding.toNat_block_lt_pow (by omega)
    _ ≤ Bytes.toNat modulus := by
        rw [hsize]
        exact Bytes.pow_le_of_natBits (by omega)

theorem unpad_eq : padding.unpad block = .ok info :=
  BlockPadding.unpad_eq_ok_iff.mpr (BlockPadding.pad_eq_ok_iff.mp h.padded)

theorem length_info (hdigest : digest.length = a.outputLength) : info.length = standardLength a := by
  obtain ⟨hencode, hlength⟩ := encode_of_length hdigest
  obtain rfl := Except.ok.inj (h.encoded.symm.trans hencode)
  exact hlength

end PaddedFor

end DigestInfo

/-! ## Both -/

namespace Scheme

/-- **The check of an RSA key is exact.** For every RSA algorithm, every RSA key, with whatever zeros in
    front of its modulus, and every digest of the algorithm's length: the key is accepted on a token
    that announces no sizes if and only if there is padding for its size and the digest can be encoded
    and padded to it. The block then has as many bytes as the key, and writes a number below the
    modulus, and what it holds is the encoding, which has the length told in advance. -/
theorem headroom_exact {scheme : Scheme} {key : Key} {modulus : Bytes} (hrsa : scheme.family = .rsa)
    (hkey : key.params = .rsa modulus) :
    ∃ a, scheme.algorithm.digest = some a ∧ ∀ digest : Bytes, digest.length = a.outputLength →
      (scheme.acceptSize key none = .ok () ↔
          ∃ padding info block, DigestInfo.PaddedFor key.bits a digest padding info block)
        ∧ ∀ padding info block, DigestInfo.PaddedFor key.bits a digest padding info block →
          block.length = key.bytes ∧ Bytes.toNat block < Bytes.toNat modulus
            ∧ padding.unpad block = .ok info ∧ info.length = DigestInfo.standardLength a := by
  obtain ⟨a, hdigest⟩ := exists_digest_of_rsa hrsa
  have hfamily : key.family = .rsa := by rw [Key.family, hkey]; rfl
  have hbits : key.bits = Bytes.bitLength modulus := by rw [Key.bits, hkey]; rfl
  refine ⟨a, hdigest, fun digest hlength => ⟨?_, fun padding info block h => ?_⟩⟩
  · rw [acceptSize_none_iff hfamily hdigest, DigestInfo.exists_paddedFor_iff hlength]
  · exact ⟨h.length_eq, h.toNat_lt hbits, h.unpad_eq, h.length_info hlength⟩

/-- The least modulus that is accepted with the longest of the digests, with zeros in front. -/
theorem headroom_exact_of_least :
    let scheme : Scheme := ⟨.sha512WithRsa, .rsaX509, .digestHere .sha512⟩
    let modulus : Bytes := 0x00 :: 0x00 :: 0x01 :: List.replicate 93 0x00
    let key : Key := ⟨⟨1⟩, .privateKey, .rsa modulus⟩
    scheme.acceptSize key none = .ok () ∧ ∃ padding info block,
      DigestInfo.PaddedFor key.bits .sha512 (List.replicate 64 0x00) padding info block
        ∧ block.length = 94 ∧ Bytes.toNat block < Bytes.toNat modulus ∧ info.length = 83 := by
  intro scheme modulus key
  have haccept : scheme.acceptSize key none = .ok () := by decide +kernel
  obtain ⟨a, hdigest, hexact⟩ := @headroom_exact scheme key modulus rfl rfl
  obtain rfl := Option.some.inj hdigest
  obtain ⟨hiff, hblock⟩ := hexact (List.replicate 64 0x00) rfl
  obtain ⟨padding, info, block, hpadded⟩ := hiff.mp haccept
  obtain ⟨hlength, hlt, _, hinfo⟩ := hblock padding info block hpadded
  have hbytes : key.bytes = 94 := by decide +kernel
  have hstandard : DigestInfo.standardLength .sha512 = 83 := by decide +kernel
  exact ⟨haccept, padding, info, block, hpadded, hlength.trans hbytes, hlt, hinfo.trans hstandard⟩

end Scheme

end Cryptoki
