import Cryptoki.Der
import Cryptoki.Proofs.Bytes

/-!
# `Cryptoki.Proofs.Der` — the rules of the encoding, and what is read and written by them

The rules say of a length, a tagged value and the content of an INTEGER which bytes write it. They
leave one choice only, which is the one that is written; and reading takes exactly what is written
off the front, and leaves what follows.

## Contents
- `Der.WritesLength`, `Der.WritesValue`, `Der.WritesInteger` — the rules.
- `Der.writesLength_lengthOctets`, `Der.WritesLength.eq` — lengths are written by the rules.
- `Der.readLength_lengthOctets`, `Der.eq_of_readLength` — lengths, read.
- `Der.readTlv_tlv`, `Der.eq_of_readTlv` — tagged values, read.
- `Der.tlv_append_inj` — no tagged value starts another.
- `Der.writesInteger_naturalContent`, `Der.WritesInteger.eq` — numbers are written by the rules.
- `Der.readNatural_naturalContent`, `Der.eq_of_readNatural` — numbers, read.
-/

namespace Cryptoki.Der

/-! ## The rules -/

/-- A definite length in its shortest form: one byte below 128, else the count of its bytes, with
    the top bit set, and the bytes without leading zeros. -/
inductive WritesLength (n : Nat) : Bytes → Prop
  | short (hn : n < 0x80) : WritesLength n [UInt8.ofNat n]
  | long {digits : Bytes} (hn : 0x80 ≤ n) (hcount : digits.length < 0x7f)
      (hhead : digits.head? ≠ some 0) (hvalue : Bytes.toNat digits = n) :
      WritesLength n (UInt8.ofNat (0x80 + digits.length) :: digits)

/-- A tagged value: the tag, the length of the content, and the content. -/
def WritesValue (tag : UInt8) (content encoding : Bytes) : Prop :=
  ∃ octets, WritesLength content.length octets ∧ encoding = tag :: (octets ++ content)

/-- The number that bytes write in two's complement. -/
def twosComplement (content : Bytes) : Int :=
  if 0x80 ≤ (content.headD 0).toNat then (Bytes.toNat content : Int) - 256 ^ content.length
  else Bytes.toNat content

/-- There is a byte and none to spare: the first nine bits are not all the same. -/
def Shortest : Bytes → Prop
  | [] => False
  | [_] => True
  | x :: y :: _ => ¬ (x = 0 ∧ y.toNat < 0x80) ∧ ¬ (x = 0xff ∧ 0x80 ≤ y.toNat)

/-- The content of an INTEGER: the shortest bytes that write it in two's complement. -/
def WritesInteger (n : Int) (content : Bytes) : Prop :=
  Shortest content ∧ twosComplement content = n

/-! ## Lengths -/

variable {n : Nat} {d rest content octets : Bytes} {tag : UInt8}

/-- The lengths in use have at most four bytes. -/
theorem length_ofNat_of_le_maxLength (h : n ≤ maxLength) : (Bytes.ofNat n).length ≤ 4 := by
  apply Bytes.length_ofNat_le.mpr
  exact lt_of_le_of_lt h (by decide)

theorem ofNat_ne_nil (h : 0x80 ≤ n) : Bytes.ofNat n ≠ [] := by
  intro hnil
  have := Bytes.toNat_ofNat n
  rw [hnil, Bytes.toNat_nil] at this
  omega

theorem writesLength_lengthOctets (h : n ≤ maxLength) : WritesLength n (lengthOctets n) := by
  unfold lengthOctets
  split
  · next hn => exact .short hn
  · next hn =>
      have hcount := length_ofNat_of_le_maxLength h
      exact .long (Nat.le_of_not_lt hn) (by omega) (Bytes.head?_ofNat n) (Bytes.toNat_ofNat n)

/-- The rules leave no choice. -/
theorem WritesLength.eq (h : WritesLength n octets) : octets = lengthOctets n := by
  cases h with
  | short hn => rw [lengthOctets, if_pos hn]
  | long hn _ hhead hvalue =>
      rw [lengthOctets, if_neg (Nat.not_lt.mpr hn), ← hvalue, Bytes.ofNat_toNat hhead]

theorem toNat_ofNat_of_lt {k : Nat} (h : k < 256) : (UInt8.ofNat k).toNat = k := by
  rw [UInt8.toNat_ofNat', Nat.mod_eq_of_lt h]

/-- A length is read off the front. -/
theorem readLength_lengthOctets (h : n ≤ maxLength) (rest : Bytes) :
    readLength (lengthOctets n ++ rest) = some (n, rest) := by
  unfold lengthOctets
  split
  · next hn =>
      have hfirst : (UInt8.ofNat n).toNat = n := toNat_ofNat_of_lt (by omega)
      simp only [List.singleton_append, readLength, hfirst, if_pos hn]
  · next hn =>
      have hcount := length_ofNat_of_le_maxLength h
      have hpos := List.length_pos_iff.mpr (ofNat_ne_nil (Nat.le_of_not_lt hn))
      have hfirst : (UInt8.ofNat (0x80 + (Bytes.ofNat n).length)).toNat
          = 0x80 + (Bytes.ofNat n).length := toNat_ofNat_of_lt (by omega)
      have hlong : ¬ 0x80 + (Bytes.ofNat n).length < 0x80 := by omega
      simp only [List.cons_append, readLength, hfirst, if_neg hlong, Nat.add_sub_cancel_left,
        List.take_left, List.drop_left, Bytes.toNat_ofNat]
      exact if_pos ⟨hpos, hcount, trivial, Bytes.head?_ofNat n, Nat.le_of_not_lt hn, h⟩

/-- What is read is the length, as it is written. -/
theorem eq_of_readLength (h : readLength d = some (n, rest)) :
    n ≤ maxLength ∧ d = lengthOctets n ++ rest := by
  cases d with
  | nil => cases h
  | cons first tail =>
      simp only [readLength] at h
      split at h
      · next hshort =>
          obtain ⟨rfl, rfl⟩ := Prod.mk.inj (Option.some.inj h)
          refine ⟨hshort.le.trans (by decide), ?_⟩
          rw [lengthOctets, if_pos hshort, UInt8.ofNat_toNat]
          rfl
      · next hlong =>
          split at h
          · next hform =>
              obtain ⟨hpos, hfour, hlength, hhead, hlow, hmax⟩ := hform
              obtain ⟨hvalue, rfl⟩ := Prod.mk.inj (Option.some.inj h)
              rw [hvalue] at hlow hmax
              have hfirst : 0x80 + (tail.take (first.toNat - 0x80)).length = first.toNat := by
                omega
              refine ⟨hmax, ?_⟩
              rw [lengthOctets, if_neg (Nat.not_lt.mpr hlow), ← hvalue, Bytes.ofNat_toNat hhead]
              simp only [hfirst, UInt8.ofNat_toNat, List.cons_append, List.take_append_drop]
          · cases h

/-! ## Tagged values -/

theorem writesValue_tlv (h : content.length ≤ maxLength) :
    WritesValue tag content (tlv tag content) :=
  ⟨_, writesLength_lengthOctets h, rfl⟩

theorem WritesValue.eq (h : WritesValue tag content d) : d = tlv tag content := by
  obtain ⟨octets, hlength, rfl⟩ := h
  rw [hlength.eq]
  rfl

/-- A tagged value is read off the front. -/
theorem readTlv_tlv (tag : UInt8) (h : content.length ≤ maxLength) (rest : Bytes) :
    readTlv tag (tlv tag content ++ rest) = some (content, rest) := by
  have hlength := readLength_lengthOctets h (content ++ rest)
  simp only [tlv, List.cons_append, List.append_assoc, readTlv, if_pos, hlength, List.take_left,
    List.drop_left]

/-- What is read is the content of a tagged value, as it is written. -/
theorem eq_of_readTlv (h : readTlv tag d = some (content, rest)) :
    content.length ≤ maxLength ∧ d = tlv tag content ++ rest := by
  cases d with
  | nil => cases h
  | cons first tail =>
      simp only [readTlv] at h
      split at h
      · next htag =>
          split at h
          · cases h
          · next n tail hlength =>
              obtain ⟨hmax, rfl⟩ := eq_of_readLength hlength
              split at h
              · next hfull =>
                  obtain ⟨rfl, rfl⟩ := Prod.mk.inj (Option.some.inj h)
                  refine ⟨hfull.le.trans hmax, ?_⟩
                  rw [htag, tlv, hfull, List.cons_append, List.append_assoc,
                    List.take_append_drop]
              · cases h
      · cases h

/-- What follows a tagged value can be told from it, so no tagged value starts another. -/
theorem tlv_append_inj {content' rest' : Bytes} (hcontent : content.length ≤ maxLength)
    (hcontent' : content'.length ≤ maxLength)
    (h : tlv tag content ++ rest = tlv tag content' ++ rest') : content = content' ∧ rest = rest' := by
  have hread := congrArg (readTlv tag) h
  rw [readTlv_tlv tag hcontent, readTlv_tlv tag hcontent'] at hread
  exact Prod.mk.inj (Option.some.inj hread)

/-- Tagged values with the same tag are told apart by their content. -/
theorem tlv_inj {content' : Bytes} (hcontent : content.length ≤ maxLength)
    (hcontent' : content'.length ≤ maxLength) (h : tlv tag content = tlv tag content') :
    content = content' := by
  have happend : tlv tag content ++ [] = tlv tag content' ++ [] := by rw [h]
  exact (tlv_append_inj hcontent hcontent' happend).1

/-- A tagged value is longer than its content. -/
theorem length_lt_length_tlv (tag : UInt8) (content : Bytes) :
    content.length < (tlv tag content).length := by
  rw [length_tlv, tlvLength]
  omega

/-! ## Integers -/

variable {m : Bytes}

/-- A number is written by the rules. -/
theorem writesInteger_naturalContent (h : m.Minimal) :
    WritesInteger (Bytes.toNat m) (naturalContent m) := by
  rcases h.cases with rfl | ⟨x, tail, hx, rfl⟩
  · exact ⟨trivial, by simp [twosComplement, naturalContent]⟩
  · simp only [naturalContent]
    split
    · next htop =>
        -- a zero byte before the top bit keeps the number
        refine ⟨⟨fun hspare => absurd hspare.2 (by omega), fun hspare => absurd hspare.1 (by decide)⟩,
          ?_⟩
        simp [twosComplement]
    · next htop =>
        refine ⟨?_, ?_⟩
        · cases tail with
          | nil => trivial
          | cons y tail =>
              exact ⟨fun hspare => hx hspare.1,
                fun hspare => htop (by rw [hspare.1]; decide)⟩
        · exact if_neg htop

/-- The rules leave no choice. -/
theorem WritesInteger.eq (hm : m.Minimal) (h : WritesInteger (Bytes.toNat m) content) :
    content = naturalContent m := by
  obtain ⟨hshortest, hvalue⟩ := h
  have hlt : (Bytes.toNat content : Int) < 256 ^ content.length := by
    exact_mod_cast Bytes.toNat_lt content
  unfold twosComplement at hvalue
  split at hvalue
  · -- with the top bit set the number would be negative
    omega
  · next htop =>
      have hnumber : Bytes.toNat content = Bytes.toNat m := by exact_mod_cast hvalue
      cases content with
      | nil => exact hshortest.elim
      | cons x tail =>
          by_cases hx : x = 0
          · subst hx
            cases tail with
            | nil =>
                obtain rfl := Bytes.minimal_zero.eq_of_toNat_eq hm hnumber
                rfl
            | cons y tail =>
                have hy : 0x80 ≤ y.toNat := by
                  by_contra hlow
                  exact hshortest.1 ⟨rfl, Nat.lt_of_not_le hlow⟩
                have hne : y ≠ 0 := fun hzero => absurd hy (by rw [hzero]; decide)
                have hsame : Bytes.toNat (y :: tail) = Bytes.toNat m := by
                  rw [← hnumber, Bytes.toNat_cons 0]
                  simp
                obtain rfl := (Bytes.minimal_cons hne).eq_of_toNat_eq hm hsame
                simp only [naturalContent, if_pos hy]
          · obtain rfl := (Bytes.minimal_cons hx).eq_of_toNat_eq hm hnumber
            rw [List.headD_cons] at htop
            simp only [naturalContent, if_neg htop]

theorem readNatural_naturalContent (h : m.Minimal) : readNatural (naturalContent m) = some m := by
  rcases h.cases with rfl | ⟨x, tail, hx, rfl⟩
  · rfl
  · simp only [naturalContent]
    split
    · next htop => simp only [readNatural, if_pos htop, if_true]
    · next htop =>
        have hlow : x.toNat < 0x80 := Nat.lt_of_not_le htop
        cases tail with
        | nil => simp only [readNatural, if_pos hlow]
        | cons y tail => simp only [readNatural, if_neg hx, if_pos hlow]

/-- What is read is a number without leading zeros, as it is written. -/
theorem eq_of_readNatural (h : readNatural content = some m) :
    m.Minimal ∧ content = naturalContent m := by
  unfold readNatural at h
  split at h
  · cases h
  · next x =>
      split at h
      · next hlow =>
          obtain rfl := Option.some.inj h
          refine ⟨⟨List.cons_ne_nil _ _, fun hzero => by rw [Option.some.inj hzero]⟩, ?_⟩
          simp only [naturalContent, if_neg (Nat.not_le.mpr hlow)]
      · cases h
  · next x y tail =>
      split at h
      · next hx =>
          split at h
          · next htop =>
              obtain rfl := Option.some.inj h
              refine ⟨Bytes.minimal_cons fun hzero => ?_, ?_⟩
              · rw [hzero] at htop
                exact absurd htop (by decide)
              · simp only [naturalContent, if_pos htop, hx]
          · cases h
      · next hx =>
          split at h
          · next hlow =>
              obtain rfl := Option.some.inj h
              exact ⟨Bytes.minimal_cons hx, by
                simp only [naturalContent, if_neg (Nat.not_le.mpr hlow)]⟩
          · cases h

end Cryptoki.Der
