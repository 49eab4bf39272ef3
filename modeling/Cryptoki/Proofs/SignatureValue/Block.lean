import Cryptoki.Proofs.SignatureValue
import Mathlib.Order.Bounds.Basic

/-!
# `Cryptoki.Proofs.SignatureValue.Block` — a block comes back from its encoding

The encoding of a block keeps the numbers in its halves, and forgets how wide the halves are. A DSA
block gets its width back, as there is only one. An ECDSA block comes back as wide as the longer of
the two numbers: without the zeros that both halves start with, and with all others.

## Contents
- `SignatureValue.pairIn` — the numbers in the halves of a block.
- `SignatureValue.length_encoding_le` — the encoding is little longer than the numbers.
- `SignatureValue.derOfBlock_eq_ok_iff` — the blocks that are encoded, and their encodings.
- `SignatureValue.toBlock_isOk_iff` — the numbers that fit a width.
- `SignatureValue.ecdsaBlock_derOfBlock`, `SignatureValue.dsaBlock_derOfBlock` — back to a block.
- `SignatureValue.restored` — both, with what they keep of the block.
-/

namespace Cryptoki

/-! ## The length of the encoding -/

/-- The tag and the length of a value take six bytes at most. -/
theorem Der.tlvLength_le {n : Nat} (h : n ≤ maxLength) : tlvLength n ≤ n + 6 := by
  have hdigits := length_ofNat_of_le_maxLength h
  have hoctets : (lengthOctets n).length ≤ 5 := by
    unfold lengthOctets
    split
    · exact (by decide : 1 ≤ 5)
    · exact Nat.succ_le_succ hdigits
  unfold tlvLength
  omega

theorem Der.length_naturalContent_le (magnitude : Bytes) :
    (naturalContent magnitude).length ≤ magnitude.length + 1 := by
  unfold naturalContent
  split
  · exact Nat.le_refl _
  · split
    · exact Nat.le_refl _
    · exact Nat.le_succ _

namespace SignatureValue

variable {v : SignatureValue} {block d : Bytes} {width : Nat}

theorem length_encoding_le (h : v.r.length + v.s.length + 20 ≤ Der.maxLength) :
    v.encoding.length ≤ v.r.length + v.s.length + 20 := by
  have hr := Der.length_naturalContent_le v.r
  have hs := Der.length_naturalContent_le v.s
  have hrValue := Der.tlvLength_le (n := (Der.naturalContent v.r).length) (by omega)
  have hsValue := Der.tlvLength_le (n := (Der.naturalContent v.s).length) (by omega)
  rw [encoding, Der.length_tlv, List.length_append, Der.length_tlv, Der.length_tlv]
  refine (Der.tlvLength_le ?_).trans ?_
  · omega
  · omega

/-! ## Halves -/

/-- The left half of a block. -/
def leftHalf (block : Bytes) : Bytes := block.take (block.length / 2)

/-- The right half of a block. -/
def rightHalf (block : Bytes) : Bytes := block.drop (block.length / 2)

/-- The numbers in the halves of a block. -/
def pairIn (block : Bytes) : SignatureValue :=
  ⟨Bytes.magnitude (leftHalf block), Bytes.magnitude (rightHalf block)⟩

theorem minimal_pairIn (block : Bytes) : (pairIn block).Minimal :=
  ⟨Bytes.minimal_magnitude _, Bytes.minimal_magnitude _⟩

theorem leftHalf_append_rightHalf (block : Bytes) : leftHalf block ++ rightHalf block = block :=
  List.take_append_drop _ block

/-- Two halves of equal width are found where they meet. -/
theorem halves_append {left right : Bytes} (hwidth : left.length = right.length) :
    leftHalf (left ++ right) = left ∧ rightHalf (left ++ right) = right := by
  have hhalf : (left ++ right).length / 2 = left.length := by
    rw [List.length_append]
    omega
  rw [leftHalf, rightHalf, hhalf]
  exact ⟨List.take_left, List.drop_left⟩

/-- A block that can be split has two halves of one length, which is not zero. -/
theorem length_halves (hne : block ≠ []) (heven : block.length % 2 = 0) :
    0 < block.length / 2 ∧ (leftHalf block).length = block.length / 2
      ∧ (rightHalf block).length = block.length / 2 := by
  have hpos : 0 < block.length := List.length_pos_iff.mpr hne
  rw [leftHalf, rightHalf, List.length_take, List.length_drop]
  omega

/-- The numbers are no longer than their halves. -/
theorem length_pairIn_le (hne : block ≠ []) (heven : block.length % 2 = 0) :
    (pairIn block).r.length ≤ block.length / 2 ∧ (pairIn block).s.length ≤ block.length / 2 := by
  obtain ⟨hpos, hleft, hright⟩ := length_halves hne heven
  have hr := Bytes.length_magnitude_le (b := leftHalf block)
    (List.ne_nil_of_length_pos (hleft.symm ▸ hpos))
  have hs := Bytes.length_magnitude_le (b := rightHalf block)
    (List.ne_nil_of_length_pos (hright.symm ▸ hpos))
  rw [hleft] at hr
  rw [hright] at hs
  exact ⟨hr, hs⟩

/-! ## From a block to its encoding -/

/-- A block that can be split is encoded as the numbers in its halves, unless that is too long. -/
theorem derOfBlock_eq_ok_iff :
    derOfBlock block = .ok d ↔
      block ≠ [] ∧ block.length % 2 = 0 ∧ d.length ≤ Der.maxLength ∧ d = (pairIn block).encoding := by
  by_cases hsplit : block ≠ [] ∧ block.length % 2 = 0
  · have hof : ofBlock block = .ok (pairIn block) := if_pos hsplit
    have hder : derOfBlock block = (pairIn block).encode.mapError .der := by
      rw [derOfBlock, hof]
      rfl
    rw [hder, ← and_assoc, and_iff_right hsplit, ← encode_eq_ok_iff]
    cases (pairIn block).encode with
    | error cause =>
        constructor
        · intro h
          cases h
        · intro h
          cases h
    | ok encoded => exact ⟨fun h => congrArg _ (Except.ok.inj h), fun h => congrArg _ (Except.ok.inj h)⟩
  · have hof : ofBlock block = .error (.uneven block.length) := if_neg hsplit
    rw [derOfBlock, hof]
    constructor
    · intro h
      cases h
    · intro h
      exact absurd ⟨h.1, h.2.1⟩ hsplit

/-- What is encoded of a block is read again. -/
theorem decode_of_derOfBlock (h : derOfBlock block = .ok d) : decode d = .ok (pairIn block) := by
  obtain ⟨_, _, hlength, rfl⟩ := derOfBlock_eq_ok_iff.mp h
  exact decode_eq_ok_iff.mpr ⟨minimal_pairIn block, hlength, rfl⟩

/-- A block that is not too long is encoded. -/
theorem encoding_pairIn_le (hne : block ≠ []) (heven : block.length % 2 = 0)
    (hshort : block.length + 20 ≤ Der.maxLength) :
    (pairIn block).encoding.length ≤ Der.maxLength := by
  obtain ⟨hr, hs⟩ := length_pairIn_le hne heven
  exact (length_encoding_le (by omega)).trans (by omega)

theorem decode_derOfBlock (hne : block ≠ []) (heven : block.length % 2 = 0)
    (hshort : block.length + 20 ≤ Der.maxLength) :
    ∃ d, derOfBlock block = .ok d ∧ decode d = .ok (pairIn block) := by
  have hder : derOfBlock block = .ok (pairIn block).encoding :=
    derOfBlock_eq_ok_iff.mpr ⟨hne, heven, encoding_pairIn_le hne heven hshort, rfl⟩
  exact ⟨_, hder, decode_of_derOfBlock hder⟩

/-! ## From an encoding to a block -/

theorem toBlock_of_le (hr : v.r.length ≤ width) (hs : v.s.length ≤ width) :
    v.toBlock width = .ok (Bytes.justifyRight width v.r ++ Bytes.justifyRight width v.s) := by
  simp only [toBlock, field, if_pos hr, if_pos hs]
  rfl

/-- Numbers make a block of a width exactly if they fit it. -/
theorem toBlock_isOk_iff : (∃ out, v.toBlock width = .ok out) ↔
    v.r.length ≤ width ∧ v.s.length ≤ width := by
  constructor
  · rintro ⟨out, hout⟩
    obtain ⟨hr, hs, _⟩ := toBlock_eq_ok hout
    exact ⟨hr, hs⟩
  · rintro ⟨hr, hs⟩
    exact ⟨_, toBlock_of_le hr hs⟩

/-- Two numbers always make a block as wide as they need. -/
theorem ecdsaBlock_isOk_iff {d : Bytes} :
    (∃ block, ecdsaBlock d = .ok block) ↔ ∃ v, decode d = .ok v := by
  unfold ecdsaBlock
  cases decode d with
  | error cause => exact ⟨nofun, nofun⟩
  | ok v =>
      exact ⟨fun _ => ⟨v, rfl⟩,
        fun _ => ⟨_, toBlock_of_le (Nat.le_max_left _ _) (Nat.le_max_right _ _)⟩⟩

/-- The zeros that both halves of a block start with, as long as a byte of each half is left. -/
def sharedZeros (block : Bytes) : Set Nat :=
  {n | n < block.length / 2 ∧ List.replicate n 0 <+: leftHalf block
    ∧ List.replicate n 0 <+: rightHalf block}

/-- Both halves start with as many zeros as both numbers leave over. -/
theorem mem_sharedZeros_iff {n : Nat} (hne : block ≠ []) (heven : block.length % 2 = 0) :
    n ∈ sharedZeros block ↔
      max (pairIn block).r.length (pairIn block).s.length + n ≤ block.length / 2 := by
  obtain ⟨hpos, hleft, hright⟩ := length_halves hne heven
  have hr : 0 < (pairIn block).r.length := List.length_pos_iff.mpr (minimal_pairIn block).r.1
  have hzeros : n < block.length / 2 → (n ∈ sharedZeros block ↔
      (pairIn block).r.length + n ≤ block.length / 2
        ∧ (pairIn block).s.length + n ≤ block.length / 2) := by
    intro hn
    have hleftZeros := Bytes.replicate_zero_prefix_iff (b := leftHalf block) (hleft.symm ▸ hn)
    have hrightZeros := Bytes.replicate_zero_prefix_iff (b := rightHalf block) (hright.symm ▸ hn)
    rw [hleft] at hleftZeros
    rw [hright] at hrightZeros
    exact (and_iff_right hn).trans (and_congr hleftZeros hrightZeros)
  constructor
  · intro hmem
    have hboth := (hzeros hmem.1).mp hmem
    omega
  · intro hle
    exact (hzeros (by omega)).mpr (by omega)

/-- **An ECDSA block comes back without the zeros that both halves start with.** -/
theorem ecdsaBlock_derOfBlock (h : derOfBlock block = .ok d) :
    ∃ n, IsGreatest (sharedZeros block) n
      ∧ ecdsaBlock d = .ok ((leftHalf block).drop n ++ (rightHalf block).drop n)
      ∧ Bytes.toNat ((leftHalf block).drop n) = Bytes.toNat (leftHalf block)
      ∧ Bytes.toNat ((rightHalf block).drop n) = Bytes.toNat (rightHalf block) := by
  obtain ⟨hne, heven, _⟩ := derOfBlock_eq_ok_iff.mp h
  obtain ⟨_, hleft, hright⟩ := length_halves hne heven
  obtain ⟨hr, hs⟩ := length_pairIn_le hne heven
  have hshared := fun n => mem_sharedZeros_iff (n := n) hne heven
  generalize hwidth : max (pairIn block).r.length (pairIn block).s.length = width at hshared
  -- each number is written in a field of this width, which is what remains of its half
  have hrWidth : (Bytes.magnitude (leftHalf block)).length ≤ width :=
    hwidth ▸ Nat.le_max_left _ _
  have hsWidth : (Bytes.magnitude (rightHalf block)).length ≤ width :=
    hwidth ▸ Nat.le_max_right _ _
  have hleftRest := Bytes.justifyRight_magnitude_eq_drop hrWidth (by omega)
  have hrightRest := Bytes.justifyRight_magnitude_eq_drop hsWidth (by omega)
  rw [hleft] at hleftRest
  rw [hright] at hrightRest
  refine ⟨block.length / 2 - width, ⟨?_, ?_⟩, ?_, ?_, ?_⟩
  · exact (hshared _).mpr (by omega)
  · intro n hn
    have hle := (hshared n).mp hn
    omega
  · rw [ecdsaBlock, decode_of_derOfBlock h]
    show (pairIn block).toBlock (max (pairIn block).r.length (pairIn block).s.length) = _
    rw [toBlock_of_le (Nat.le_max_left _ _) (Nat.le_max_right _ _), hwidth, ← hleftRest,
      ← hrightRest]
    rfl
  · rw [← hleftRest, Bytes.toNat_justifyRight, Bytes.toNat_magnitude]
  · rw [← hrightRest, Bytes.toNat_justifyRight, Bytes.toNat_magnitude]

/-- Nothing is cut off a block exactly if a half starts with another byte than zero, or there is only
    one byte to each half. -/
theorem eq_zero_iff_of_sharedZeros {n : Nat} (hne : block ≠ []) (heven : block.length % 2 = 0)
    (h : IsGreatest (sharedZeros block) n) :
    n = 0 ↔ (leftHalf block).head? ≠ some 0 ∨ (rightHalf block).head? ≠ some 0
      ∨ block.length = 2 := by
  have hpos := (length_halves hne heven).1
  -- if anything can be cut off, one byte can
  have hone : n = 0 ↔ 1 ∉ sharedZeros block := by
    have hn := (mem_sharedZeros_iff hne heven).mp h.1
    rw [mem_sharedZeros_iff hne heven]
    constructor
    · rintro rfl hle
      exact absurd (h.2 ((mem_sharedZeros_iff hne heven).mpr hle)) (by decide)
    · omega
  have hlength : ¬ 1 < block.length / 2 ↔ block.length = 2 := by omega
  have hmem : 1 ∈ sharedZeros block ↔ 1 < block.length / 2 ∧ (leftHalf block).head? = some 0
      ∧ (rightHalf block).head? = some 0 :=
    and_congr Iff.rfl (and_congr List.singleton_prefix_iff_head?_eq_some
      List.singleton_prefix_iff_head?_eq_some)
  rw [hone, ← hlength, hmem]
  tauto

/-- What is cut off both halves makes the block shorter. -/
theorem drop_halves_eq_iff {n : Nat} (hne : block ≠ []) (heven : block.length % 2 = 0) :
    ((leftHalf block).drop n ++ (rightHalf block).drop n).length ≤ block.length
      ∧ ((leftHalf block).drop n ++ (rightHalf block).drop n = block ↔ n = 0) := by
  obtain ⟨hpos, hleft, hright⟩ := length_halves hne heven
  have hlength : ((leftHalf block).drop n ++ (rightHalf block).drop n).length
      = block.length / 2 - n + (block.length / 2 - n) := by
    rw [List.length_append, List.length_drop, List.length_drop, hleft, hright]
  refine ⟨by omega, ?_, ?_⟩
  · intro hsame
    rw [hsame] at hlength
    omega
  · rintro rfl
    exact leftHalf_append_rightHalf block

/-- The numbers that fit a field of a DSA block. -/
theorem length_magnitude_le_dsaHalfWidth (b : Bytes) :
    (Bytes.magnitude b).length ≤ dsaHalfWidth ↔ Bytes.toNat b < 2 ^ 160 := by
  rw [(Bytes.minimal_magnitude b).length_le_iff (by decide), Bytes.toNat_magnitude]
  exact Iff.rfl

/-- A number in a field of its own width or more is that number, written in the width. -/
theorem justifyRight_magnitude_eq_ofNatWidth {b : Bytes} (h : (Bytes.magnitude b).length ≤ width) :
    Bytes.justifyRight width (Bytes.magnitude b) = Bytes.ofNatWidth width (Bytes.toNat b) := by
  apply Bytes.eq_of_toNat_eq
  · rw [Bytes.length_justifyRight h, Bytes.length_ofNatWidth]
  · have hlt := (Bytes.toNat_lt (Bytes.magnitude b)).trans_le (Nat.pow_le_pow_right (by decide) h)
    rw [Bytes.toNat_magnitude] at hlt
    rw [Bytes.toNat_justifyRight, Bytes.toNat_magnitude, Bytes.toNat_ofNatWidth,
      Nat.mod_eq_of_lt hlt]

/-- **A DSA block comes back in full width**, if both numbers fit it. -/
theorem dsaBlock_derOfBlock (h : derOfBlock block = .ok d) :
    ((∃ out, dsaBlock d = .ok out) ↔
        Bytes.toNat (leftHalf block) < 2 ^ 160 ∧ Bytes.toNat (rightHalf block) < 2 ^ 160)
      ∧ ∀ out, dsaBlock d = .ok out →
          out = Bytes.ofNatWidth dsaHalfWidth (Bytes.toNat (leftHalf block))
            ++ Bytes.ofNatWidth dsaHalfWidth (Bytes.toNat (rightHalf block)) := by
  have hblock : dsaBlock d = (pairIn block).toBlock dsaHalfWidth := by
    rw [dsaBlock, decode_of_derOfBlock h]
    rfl
  rw [hblock]
  refine ⟨?_, ?_⟩
  · rw [toBlock_isOk_iff]
    exact and_congr (length_magnitude_le_dsaHalfWidth _) (length_magnitude_le_dsaHalfWidth _)
  · intro out hout
    obtain ⟨hr, hs, rfl⟩ := toBlock_eq_ok hout
    exact congrArg₂ _ (justifyRight_magnitude_eq_ofNatWidth hr)
      (justifyRight_magnitude_eq_ofNatWidth hs)

/-- A block that has the width of a DSA block comes back as it was. -/
theorem dsaBlock_of_length (h : derOfBlock block = .ok d) (hlength : block.length = 40) :
    dsaBlock d = .ok block := by
  obtain ⟨hne, heven, _⟩ := derOfBlock_eq_ok_iff.mp h
  obtain ⟨hpos, hleft, hright⟩ := length_halves hne heven
  have hhalf : block.length / 2 = dsaHalfWidth := by rw [hlength]; rfl
  obtain ⟨hr, hs⟩ := length_pairIn_le hne heven
  rw [hhalf] at hpos hleft hright hr hs
  rw [dsaBlock, decode_of_derOfBlock h]
  show (pairIn block).toBlock dsaHalfWidth = _
  have hleftAgain := Bytes.justifyRight_magnitude (b := leftHalf block)
    (List.ne_nil_of_length_pos (hleft.symm ▸ hpos))
  have hrightAgain := Bytes.justifyRight_magnitude (b := rightHalf block)
    (List.ne_nil_of_length_pos (hright.symm ▸ hpos))
  rw [hleft] at hleftAgain
  rw [hright] at hrightAgain
  rw [toBlock_of_le hr hs]
  show Except.ok (Bytes.justifyRight dsaHalfWidth (Bytes.magnitude (leftHalf block))
    ++ Bytes.justifyRight dsaHalfWidth (Bytes.magnitude (rightHalf block))) = _
  rw [hleftAgain, hrightAgain, leftHalf_append_rightHalf]

/-! ## There and back -/

/-- **A block comes back from its encoding.** A block is encoded exactly if it splits into two halves
    that hold something, as long as the encoding does not get too long, for which twenty bytes of
    room are enough. Read as ECDSA, it comes back with the zeros cut off that both halves start
    with, as long as a byte of each is left: the halves keep their numbers, the block gets no
    longer, and it stays as it is exactly if a half starts with another byte than zero or has no
    other byte. Read as DSA, it comes back exactly if both numbers are below `2 ^ 160`, then with
    each in twenty bytes; a block of forty bytes stays as it is. -/
theorem restored (block : Bytes) :
    let left := leftHalf block
    let right := rightHalf block
    (block ≠ [] → block.length % 2 = 0 → block.length + 20 ≤ Der.maxLength →
        (pairIn block).encoding.length ≤ Der.maxLength)
      ∧ ((∃ d, derOfBlock block = .ok d) ↔ block ≠ [] ∧ block.length % 2 = 0
        ∧ (pairIn block).encoding.length ≤ Der.maxLength)
      ∧ ∀ d, derOfBlock block = .ok d →
        (∃ n out, IsGreatest (sharedZeros block) n ∧ ecdsaBlock d = .ok out
          ∧ out = left.drop n ++ right.drop n
          ∧ Bytes.toNat (left.drop n) = Bytes.toNat left
          ∧ Bytes.toNat (right.drop n) = Bytes.toNat right
          ∧ out.length ≤ block.length
          ∧ (out = block ↔ left.head? ≠ some 0 ∨ right.head? ≠ some 0 ∨ block.length = 2))
        ∧ ((∃ out, dsaBlock d = .ok out) ↔ Bytes.toNat left < 2 ^ 160 ∧ Bytes.toNat right < 2 ^ 160)
        ∧ (∀ out, dsaBlock d = .ok out →
          out = Bytes.ofNatWidth dsaHalfWidth (Bytes.toNat left)
            ++ Bytes.ofNatWidth dsaHalfWidth (Bytes.toNat right))
        ∧ (block.length = 40 → dsaBlock d = .ok block) := by
  intro left right
  refine ⟨encoding_pairIn_le, ?_, ?_⟩
  · constructor
    · rintro ⟨d, hder⟩
      obtain ⟨hne, heven, hlength, rfl⟩ := derOfBlock_eq_ok_iff.mp hder
      exact ⟨hne, heven, hlength⟩
    · rintro ⟨hne, heven, hlength⟩
      exact ⟨_, derOfBlock_eq_ok_iff.mpr ⟨hne, heven, hlength, rfl⟩⟩
  · intro d hder
    obtain ⟨hne, heven, _⟩ := derOfBlock_eq_ok_iff.mp hder
    obtain ⟨n, hgreatest, hblock, hleft, hright⟩ := ecdsaBlock_derOfBlock hder
    obtain ⟨hlength, hsame⟩ := drop_halves_eq_iff (n := n) hne heven
    have hcut := eq_zero_iff_of_sharedZeros hne heven hgreatest
    obtain ⟨hdsa, hout⟩ := dsaBlock_derOfBlock hder
    exact ⟨⟨n, _, hgreatest, hblock, rfl, hleft, hright, hlength, hsame.trans hcut⟩, hdsa, hout,
      dsaBlock_of_length hder⟩

/-- The zero before a byte with its top bit is cut off with the other half's, and not put back. -/
theorem restored_of_top_bit :
    derOfBlock [0x00, 0x80, 0x00, 0x01]
        = .ok [0x30, 0x07, 0x02, 0x02, 0x00, 0x80, 0x02, 0x01, 0x01]
      ∧ ∃ n out, IsGreatest (sharedZeros [0x00, 0x80, 0x00, 0x01]) n
        ∧ ecdsaBlock [0x30, 0x07, 0x02, 0x02, 0x00, 0x80, 0x02, 0x01, 0x01] = .ok out
        ∧ out = ([0x00, 0x80] : Bytes).drop n ++ ([0x00, 0x01] : Bytes).drop n
        ∧ out ≠ [0x00, 0x80, 0x00, 0x01] := by
  have hder : derOfBlock [0x00, 0x80, 0x00, 0x01]
      = .ok [0x30, 0x07, 0x02, 0x02, 0x00, 0x80, 0x02, 0x01, 0x01] := by decide +kernel
  obtain ⟨n, out, hgreatest, hblock, hout, _, _, _, hsame⟩ :=
    ((restored [0x00, 0x80, 0x00, 0x01]).2.2 _ hder).1
  exact ⟨hder, n, out, hgreatest, hblock, hout, fun heq => absurd (hsame.mp heq) (by decide)⟩

end SignatureValue

end Cryptoki
