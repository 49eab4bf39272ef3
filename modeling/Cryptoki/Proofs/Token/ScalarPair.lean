import Cryptoki.Proofs.SignatureValue.Block
import Cryptoki.Token.Software

/-!
# `Cryptoki.Proofs.Token.ScalarPair` — a block of two scalars survives its encoding

The token makes blocks of two scalars in full width. Callers see them encoded, without their leading
zeros, and give them back in a block that is as wide as the longer number. The token puts the zeros
back where they were, so it finds the block it made, however short its numbers are.

Bytes get into a field by being written over its right end. That nothing is ever written past the end
of a buffer is part of what is proved: writing is a function that may fail, and it does not.

## Contents
- `Bytes.writeUpTo?`, `Bytes.writeFields?` — bytes written into a buffer, if they fit.
- `SignatureValue.ecdsaBlock_of_decode` — the block of an encoding that is accepted.
- `SignatureValue.scalarPair?_append`, `SignatureValue.scalarPair?_append_eq_none_iff` — halves are
  brought to full width, or are too wide.
- `SignatureValue.scalarPair?_justified` — so are numbers, whatever the width of their block.
- `SignatureValue.scalarPair?_val`, `SignatureValue.scalarPair?_ecdsaBlock` — the token takes a block
  of full width as it is, and finds its own.
- `SignatureValue.seen_in_full_width` — what a key is asked about.
-/

namespace Cryptoki

/-! ## Fields of a buffer -/

namespace Bytes

variable {left right : Bytes} {width : Nat}

/-- The buffer with bytes written over those before a place in it. There is none if the place is not
    in the buffer, or not as many bytes are before it. -/
def writeUpTo? (buffer : Bytes) (stop : Nat) (source : Bytes) : Option Bytes :=
  if source.length ≤ stop ∧ stop ≤ buffer.length then
    some (buffer.take (stop - source.length) ++ source ++ buffer.drop stop)
  else none

/-- Two fields of one width, all zeros, with bytes written over the right end of each. -/
def writeFields? (width : Nat) (left right : Bytes) : Option Bytes :=
  (writeUpTo? (List.replicate (2 * width) 0) width left).bind fun buffer =>
    writeUpTo? buffer (2 * width) right

/-- **Bytes that are no longer than their fields are written into them.** -/
theorem writeFields?_eq (hleft : left.length ≤ width) (hright : right.length ≤ width) :
    writeFields? width left right = some (justifyRight width left ++ justifyRight width right) := by
  have hfirst : writeUpTo? (List.replicate (2 * width) 0) width left
      = some (justifyRight width left ++ List.replicate width 0) := by
    have hrest : 2 * width - width = width := by omega
    rw [writeUpTo?, if_pos ⟨hleft, by rw [List.length_replicate]; omega⟩, List.take_replicate,
      List.drop_replicate, hrest, Nat.min_eq_left (by omega)]
    rfl
  have hfield : (justifyRight width left).length = width := length_justifyRight hleft
  have hbuffer : (justifyRight width left ++ List.replicate width 0).length = 2 * width := by
    rw [List.length_append, List.length_replicate]
    omega
  rw [writeFields?, hfirst, Option.bind_some, writeUpTo?, if_pos ⟨by omega, hbuffer.ge⟩,
    List.drop_of_length_le hbuffer.le, List.append_nil]
  -- the second field starts where the first one ends
  have hsplit : 2 * width - right.length
      = (justifyRight width left).length + (width - right.length) := by omega
  rw [hsplit, List.take_length_add_append, List.take_replicate, Nat.min_eq_left (by omega),
    List.append_assoc]
  rfl

end Bytes

namespace SignatureValue

variable {v : SignatureValue} {d left right : Bytes} {width : Nat}

/-! ## Blocks of any width -/

/-- The block of an encoding that is accepted is as wide as the longer number. -/
theorem ecdsaBlock_of_decode (h : decode d = .ok v) :
    ecdsaBlock d = .ok (Bytes.justifyRight (max v.r.length v.s.length) v.r
      ++ Bytes.justifyRight (max v.r.length v.s.length) v.s) := by
  rw [ecdsaBlock, h]
  exact toBlock_of_le (Nat.le_max_left _ _) (Nat.le_max_right _ _)

/-- Halves of a width up to that of a scalar are brought to full width. -/
theorem scalarPair?_append (hleft : left.length = width) (hright : right.length = width)
    (hpos : 0 < width) (hle : width ≤ Ecdsa.scalarWidth) :
    (scalarPair? (left ++ right)).map (·.val)
      = some (Bytes.justifyRight Ecdsa.scalarWidth left
        ++ Bytes.justifyRight Ecdsa.scalarWidth right) := by
  have hlength : (left ++ right).length = 2 * width := by
    rw [List.length_append]
    omega
  have hhalf : (left ++ right).length / 2 = left.length := by omega
  have hne : left ++ right ≠ [] := by
    apply List.ne_nil_of_length_pos
    omega
  have hblock : left ++ right ≠ [] ∧ (left ++ right).length % 2 = 0
      ∧ (left ++ right).length ≤ Ecdsa.signatureWidth := by
    refine ⟨hne, by omega, ?_⟩
    rw [hlength]
    exact Nat.mul_le_mul_left 2 hle
  rw [scalarPair?, dif_pos hblock]
  simp only [hhalf, Option.map_some, List.take_left, List.drop_left]

/-- And wider halves are refused. -/
theorem scalarPair?_append_eq_none_iff (hleft : left.length = width)
    (hright : right.length = width) (hpos : 0 < width) :
    scalarPair? (left ++ right) = none ↔ Ecdsa.scalarWidth < width := by
  constructor
  · intro hnone
    by_contra hle
    have hpair := scalarPair?_append hleft hright hpos (Nat.le_of_not_lt hle)
    rw [hnone] at hpair
    cases hpair
  · intro hlt
    apply dif_neg
    rintro ⟨_, _, hle⟩
    rw [List.length_append, Ecdsa.signatureWidth] at hle
    omega

/-- Numbers are brought to full width, whatever the width of their block. -/
theorem scalarPair?_justified (hv : v.Minimal) (hr : v.r.length ≤ width)
    (hs : v.s.length ≤ width) (hle : width ≤ Ecdsa.scalarWidth) :
    (scalarPair? (Bytes.justifyRight width v.r ++ Bytes.justifyRight width v.s)).map (·.val)
      = some (Bytes.justifyRight Ecdsa.scalarWidth v.r
        ++ Bytes.justifyRight Ecdsa.scalarWidth v.s) := by
  have hpos : 0 < width := (List.length_pos_iff.mpr hv.r.1).trans_le hr
  rw [scalarPair?_append (Bytes.length_justifyRight hr) (Bytes.length_justifyRight hs) hpos hle,
    Bytes.justifyRight_justifyRight hle hr, Bytes.justifyRight_justifyRight hle hs]

/-! ## Blocks of full width -/

/-- A block of full width has a scalar's width on each side. -/
theorem half_signatureWidth (b : SizedBytes Ecdsa.signatureWidth) :
    b.val ≠ [] ∧ b.val.length % 2 = 0 ∧ b.val.length / 2 = Ecdsa.scalarWidth := by
  have hlength : b.val.length = 2 * Ecdsa.scalarWidth := b.property
  have hscalar : 0 < Ecdsa.scalarWidth := by decide
  exact ⟨List.ne_nil_of_length_pos (by omega), by omega, by omega⟩

/-- It is taken as it is. -/
theorem scalarPair?_val (b : SizedBytes Ecdsa.signatureWidth) : scalarPair? b.val = some b := by
  obtain ⟨hne, heven, hhalf⟩ := half_signatureWidth b
  obtain ⟨hpos, hleft, hright⟩ := length_halves hne heven
  rw [hhalf] at hpos hleft hright
  have hpair := scalarPair?_append hleft hright hpos (Nat.le_refl _)
  have hfull : ∀ {half : Bytes}, half.length = Ecdsa.scalarWidth →
      Bytes.justifyRight Ecdsa.scalarWidth half = half := by
    intro half hhalf
    rw [Bytes.justifyRight, hhalf, Nat.sub_self]
    rfl
  rw [hfull hleft, hfull hright, leftHalf_append_rightHalf] at hpair
  obtain ⟨found, hfound, hval⟩ := Option.map_eq_some_iff.mp hpair
  rw [hfound, Subtype.ext hval]

/-- Its numbers in full width are that block. -/
theorem justifyRight_pairIn (b : SizedBytes Ecdsa.signatureWidth) :
    (pairIn b.val).r.length ≤ Ecdsa.scalarWidth ∧ (pairIn b.val).s.length ≤ Ecdsa.scalarWidth
      ∧ Bytes.justifyRight Ecdsa.scalarWidth (pairIn b.val).r
        ++ Bytes.justifyRight Ecdsa.scalarWidth (pairIn b.val).s = b.val := by
  obtain ⟨hne, heven, hhalf⟩ := half_signatureWidth b
  obtain ⟨hpos, hleft, hright⟩ := length_halves hne heven
  obtain ⟨hr, hs⟩ := length_pairIn_le hne heven
  have hleftAgain := Bytes.justifyRight_magnitude (b := leftHalf b.val)
    (List.ne_nil_of_length_pos (hleft.symm ▸ hpos))
  have hrightAgain := Bytes.justifyRight_magnitude (b := rightHalf b.val)
    (List.ne_nil_of_length_pos (hright.symm ▸ hpos))
  rw [hleft, hhalf] at hleftAgain
  rw [hright, hhalf] at hrightAgain
  refine ⟨hhalf ▸ hr, hhalf ▸ hs, ?_⟩
  rw [pairIn, hleftAgain, hrightAgain, leftHalf_append_rightHalf]

/-- **The token finds the block it made**, after it was encoded and read. -/
theorem scalarPair?_ecdsaBlock (s : SizedBytes Ecdsa.signatureWidth) :
    ∃ d block, derOfBlock s.val = .ok d ∧ ecdsaBlock d = .ok block
      ∧ scalarPair? block = some s := by
  obtain ⟨hne, heven, _⟩ := half_signatureWidth s
  obtain ⟨d, hder, hdecode⟩ := decode_derOfBlock hne heven (by rw [s.property]; decide)
  obtain ⟨hr, hs, hwhole⟩ := justifyRight_pairIn s
  -- the block is as wide as the longer of the two numbers, and they are no wider than a scalar
  have hpair := scalarPair?_justified (minimal_pairIn s.val) (Nat.le_max_left _ _)
    (Nat.le_max_right _ _) (Nat.max_le.mpr ⟨hr, hs⟩)
  rw [hwhole] at hpair
  obtain ⟨found, hfound, hval⟩ := Option.map_eq_some_iff.mp hpair
  exact ⟨d, _, hder, ecdsaBlock_of_decode hdecode, Subtype.ext hval ▸ hfound⟩

/-! ## What a key is asked about -/

section

variable (ops : KeyOperations) (key : Ecdsa.PublicKey) (mechanism : Mechanism) (input : Bytes)

/-- A block that can be brought to full width is put to the key. -/
theorem verify_of_scalarPair? {block : Bytes} {pair : SizedBytes Ecdsa.signatureWidth}
    (h : scalarPair? block = some pair) :
    (StoredKey.ecPublic key).verify ops mechanism input block
      = verdict .signatureInvalid (ops.ecdsaVerify key input pair) := by
  simp only [StoredKey.verify, h]

/-- The width of a block is at fault exactly if it cannot be. -/
theorem verify_lenRange_iff {block : Bytes} :
    (StoredKey.ecPublic key).verify ops mechanism input block = .error .signatureLenRange
      ↔ scalarPair? block = none := by
  cases hpair : scalarPair? block with
  | none => exact iff_of_true (by simp only [StoredKey.verify, hpair]) rfl
  | some pair =>
      rw [verify_of_scalarPair? ops key mechanism input hpair]
      refine iff_of_false ?_ nofun
      cases ops.ecdsaVerify key input pair <;> nofun

end

/-- **A key is asked about the numbers that were read, in full width.** Whatever byte string is
    accepted as the encoding of two numbers: the block that the token is given has both in fields as
    wide as the longer one. The token says that the signature has a wrong length exactly if one of
    the numbers has more bytes than a scalar. If not, the key is asked about the block that has both
    numbers at the right end of fields of full width. In making either block nothing is written past
    the end of a field. So a block of full width is the one that a key is asked about after it was
    encoded and read, and the verdict is the one on the block itself: the width in between changes
    nothing. -/
theorem seen_in_full_width :
    (∀ (d : Bytes) (v : SignatureValue), decode d = .ok v →
      let tooLong := Ecdsa.scalarWidth < v.r.length ∨ Ecdsa.scalarWidth < v.s.length
      ∃ block, ecdsaBlock d = .ok block
        ∧ Bytes.writeFields? (max v.r.length v.s.length) v.r v.s = some block
        ∧ (∀ ops key mechanism input,
          (StoredKey.ecPublic key).verify ops mechanism input block = .error .signatureLenRange
            ↔ tooLong)
        ∧ (¬ tooLong → ∃ pair : SizedBytes Ecdsa.signatureWidth,
          pair.val = Bytes.justifyRight Ecdsa.scalarWidth v.r
              ++ Bytes.justifyRight Ecdsa.scalarWidth v.s
            ∧ Bytes.writeFields? Ecdsa.scalarWidth (leftHalf block) (rightHalf block)
              = some pair.val
            ∧ ∀ ops key mechanism input,
              (StoredKey.ecPublic key).verify ops mechanism input block
                = verdict .signatureInvalid (ops.ecdsaVerify key input pair)))
      ∧ ∀ b : SizedBytes Ecdsa.signatureWidth, ∃ d block, derOfBlock b.val = .ok d
        ∧ ecdsaBlock d = .ok block
        ∧ ∀ ops key mechanism input,
          (StoredKey.ecPublic key).verify ops mechanism input block
              = verdict .signatureInvalid (ops.ecdsaVerify key input b)
            ∧ (StoredKey.ecPublic key).verify ops mechanism input block
              = (StoredKey.ecPublic key).verify ops mechanism input b.val := by
  constructor
  · intro d v hdecode tooLong
    have hv : v.Minimal := (decode_eq_ok_iff.mp hdecode).1
    have hr : v.r.length ≤ max v.r.length v.s.length := Nat.le_max_left _ _
    have hs : v.s.length ≤ max v.r.length v.s.length := Nat.le_max_right _ _
    have hpos : 0 < max v.r.length v.s.length := (List.length_pos_iff.mpr hv.r.1).trans_le hr
    have hleft := Bytes.length_justifyRight hr
    have hright := Bytes.length_justifyRight hs
    refine ⟨_, ecdsaBlock_of_decode hdecode, Bytes.writeFields?_eq hr hs, ?_, ?_⟩
    · intro ops key mechanism input
      rw [verify_lenRange_iff, scalarPair?_append_eq_none_iff hleft hright hpos, lt_max_iff]
    · intro hshort
      obtain ⟨hrShort, hsShort⟩ := not_or.mp hshort
      have hle : max v.r.length v.s.length ≤ Ecdsa.scalarWidth := by omega
      obtain ⟨pair, hpair, hval⟩ := Option.map_eq_some_iff.mp (scalarPair?_justified hv hr hs hle)
      refine ⟨pair, hval, ?_, fun ops key mechanism input =>
        verify_of_scalarPair? ops key mechanism input hpair⟩
      obtain ⟨hleftHalf, hrightHalf⟩ := halves_append (hleft.trans hright.symm)
      rw [hleftHalf, hrightHalf, Bytes.writeFields?_eq (hleft.trans_le hle) (hright.trans_le hle),
        Bytes.justifyRight_justifyRight hle hr, Bytes.justifyRight_justifyRight hle hs, hval]
  · intro b
    obtain ⟨d, block, hder, hblock, hpair⟩ := scalarPair?_ecdsaBlock b
    refine ⟨d, block, hder, hblock, fun ops key mechanism input => ?_⟩
    have hverify := verify_of_scalarPair? ops key mechanism input hpair
    have hitself := verify_of_scalarPair? ops key mechanism input (scalarPair?_val b)
    exact ⟨hverify, hverify.trans hitself.symm⟩

/-- `r = 128` has a zero before its top bit in its encoding, none in its block, and as many as fill
    the field in the end; `r = 256 ^ 32` has one byte too many. -/
theorem seen_in_full_width_of_top_bit :
    (∃ block, ecdsaBlock [0x30, 0x07, 0x02, 0x02, 0x00, 0x80, 0x02, 0x01, 0x01] = .ok block
      ∧ ∃ pair : SizedBytes Ecdsa.signatureWidth,
        pair.val = List.replicate 31 0 ++ [0x80] ++ (List.replicate 31 0 ++ [0x01])
          ∧ ∀ ops key mechanism input,
            (StoredKey.ecPublic key).verify ops mechanism input block
              = verdict .signatureInvalid (ops.ecdsaVerify key input pair))
      ∧ ∃ block,
        ecdsaBlock ([0x30, 0x26, 0x02, 0x21, 0x01] ++ List.replicate 32 0 ++ [0x02, 0x01, 0x01])
            = .ok block
          ∧ ∀ ops key mechanism input,
            (StoredKey.ecPublic key).verify ops mechanism input block
              = .error .signatureLenRange := by
  have hshort : decode [0x30, 0x07, 0x02, 0x02, 0x00, 0x80, 0x02, 0x01, 0x01]
      = .ok ⟨[0x80], [0x01]⟩ := by decide +kernel
  have hlong : decode ([0x30, 0x26, 0x02, 0x21, 0x01] ++ List.replicate 32 0 ++ [0x02, 0x01, 0x01])
      = .ok ⟨0x01 :: List.replicate 32 0, [0x01]⟩ := by decide +kernel
  obtain ⟨block, hblock, _, _, hseen⟩ := seen_in_full_width.1 _ _ hshort
  obtain ⟨pair, hpair, _, hverify⟩ := hseen (by decide)
  obtain ⟨block', hblock', _, hrefused, _⟩ := seen_in_full_width.1 _ _ hlong
  exact ⟨⟨block, hblock, pair, hpair, hverify⟩, block', hblock', fun ops key mechanism input =>
    (hrefused ops key mechanism input).mpr (by decide)⟩

end SignatureValue

end Cryptoki
