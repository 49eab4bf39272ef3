import Cryptoki.Bytes.Lemmas

/-!
# `Cryptoki.Proofs.Bytes` — one byte string for each number and width

A number fills a field of a given width in one way only, and without leading zeros it has one width.
So a byte string is known by its length and its number, and most equations between byte strings
are proved by comparing the two.

## Contents
- `Bytes.eq_of_toNat_eq` — length and number determine a byte string.
- `Bytes.natBits_le`, `Bytes.length_ofNat_le` — the bits and the bytes that a number needs.
- `Bytes.toNat_ofNat`, `Bytes.ofNat_toNat` — writing without leading zeros, and reading.
- `Bytes.bitLength_eq`, `Bytes.bitLength_ofNat` — the size in bits, whichever way it is measured.
- `Bytes.bitLength_le`, `Bytes.length_stripZeros_le` — it is the least, and so is the size in bytes.
- `Bytes.pow_le_of_natBits` — the least number of a size in bytes.
- `Bytes.Minimal` — numbers without leading zeros, zero being one zero byte.
- `Bytes.magnitude_justifyRight`, `Bytes.justifyRight_magnitude` — zeros added and removed.
- `Bytes.justifyRight_magnitude_eq_drop`, `Bytes.replicate_zero_prefix_iff` — some of the zeros.
-/

namespace Cryptoki.Bytes

/-! ## Length and number -/

/-- Two byte strings of one length that write the same number are the same. -/
theorem eq_of_toNat_eq {a b : Bytes} (hlength : a.length = b.length) (h : toNat a = toNat b) :
    a = b := by
  induction a generalizing b with
  | nil => exact (List.length_eq_zero_iff.mp hlength.symm).symm
  | cons x a ih =>
      cases b with
      | nil => cases hlength
      | cons y b =>
          have hsame : a.length = b.length := Nat.succ.inj hlength
          rw [toNat_cons, toNat_cons, hsame] at h
          -- the first bytes are the quotients by the power, and the rest what is left
          have ha : toNat a < 256 ^ b.length := hsame ▸ toNat_lt a
          have hb := toNat_lt b
          have hpos : 0 < 256 ^ b.length := Nat.pow_pos (by decide)
          have hfirst : x.toNat = y.toNat := by
            have := congrArg (· / 256 ^ b.length) h
            simpa [Nat.add_comm (_ * _), Nat.add_mul_div_right _ _ hpos, Nat.div_eq_of_lt ha,
              Nat.div_eq_of_lt hb] using this
          rw [hfirst] at h
          rw [UInt8.toNat_inj.mp hfirst, ih hsame (Nat.add_left_cancel h)]

theorem toNat_ofNatWidth (width n : Nat) : toNat (ofNatWidth width n) = n % 256 ^ width := by
  induction width with
  | zero => simp [ofNatWidth, Nat.mod_one]
  | succ width ih =>
      have hshift : n >>> (8 * width) = n / 256 ^ width := by
        rw [Nat.shiftRight_eq_div_pow, Nat.pow_mul]
      rw [ofNatWidth, toNat_cons, ih, length_ofNatWidth, hshift, Nat.mod_pow_succ,
        UInt8.toNat_ofNat']
      ring

theorem toNat_replicate_zero (n : Nat) (b : Bytes) :
    toNat (List.replicate n 0 ++ b) = toNat b := by
  induction n with
  | zero => rfl
  | succ n ih => rw [List.replicate_succ, List.cons_append, toNat_cons, ih]; simp

/-! ## The bytes that a number needs -/

theorem natBits_le {n k : Nat} : natBits n ≤ k ↔ n < 2 ^ k := by
  unfold natBits
  split
  · next h => simp [h]
  · next h => exact Nat.log2_lt h

theorem length_ofNat (n : Nat) : (ofNat n).length = (natBits n + 7) / 8 := length_ofNatWidth _ _

theorem length_ofNat_le {n width : Nat} : (ofNat n).length ≤ width ↔ n < 256 ^ width := by
  have hpow : 256 ^ width = 2 ^ (8 * width) := by rw [Nat.pow_mul]
  rw [length_ofNat, hpow, ← natBits_le]
  omega

theorem toNat_ofNat (n : Nat) : toNat (ofNat n) = n := by
  have hlt : n < 256 ^ (ofNat n).length := length_ofNat_le.mp (Nat.le_refl _)
  rw [length_ofNat] at hlt
  rw [ofNat, toNat_ofNatWidth, Nat.mod_eq_of_lt hlt]

/-- The first byte that is written is not zero. -/
theorem head?_ofNat (n : Nat) : (ofNat n).head? ≠ some 0 := by
  intro hzero
  cases hbytes : ofNat n with
  | nil => simp [hbytes] at hzero
  | cons x rest =>
      rw [hbytes] at hzero
      obtain rfl : x = 0 := Option.some.inj hzero
      -- without its first byte the string still writes the number
      have hn : n = toNat rest := by
        rw [← toNat_ofNat n, hbytes, toNat_cons]
        simp
      have hle : (ofNat n).length ≤ rest.length := length_ofNat_le.mpr (hn ▸ toNat_lt rest)
      rw [hbytes, List.length_cons] at hle
      omega

theorem head?_cons_ne {x : UInt8} {rest : Bytes} (hx : x ≠ 0) : (x :: rest).head? ≠ some 0 :=
  fun h => hx (Option.some.inj h)

/-- A byte string with a first byte that is not zero writes a number of its own width. -/
theorem le_toNat_of_head? {x : UInt8} {rest : Bytes} (hx : x ≠ 0) :
    256 ^ rest.length ≤ toNat (x :: rest) := by
  have hpos : 1 ≤ x.toNat := Nat.one_le_iff_ne_zero.mpr fun h => hx (UInt8.toNat_inj.mp h)
  rw [toNat_cons]
  exact (Nat.le_mul_of_pos_left _ hpos).trans (Nat.le_add_right _ _)

theorem toNat_cons_ne_zero {x : UInt8} {rest : Bytes} (hx : x ≠ 0) : toNat (x :: rest) ≠ 0 :=
  ((Nat.pow_pos (by decide)).trans_le (le_toNat_of_head? hx)).ne'

/-- A byte string without leading zeros is the shortest that writes its number. -/
theorem ofNat_toNat {b : Bytes} (h : b.head? ≠ some 0) : ofNat (toNat b) = b := by
  refine eq_of_toNat_eq (Nat.le_antisymm (length_ofNat_le.mpr (toNat_lt b)) ?_) (toNat_ofNat _)
  cases b with
  | nil => exact Nat.zero_le _
  | cons x rest =>
      have hx : x ≠ 0 := fun hx => h (hx ▸ rfl)
      by_contra hlt
      have hle : (ofNat (toNat (x :: rest))).length ≤ rest.length := by
        rw [List.length_cons] at hlt; omega
      exact absurd (length_ofNat_le.mp hle) (Nat.not_lt.mpr (le_toNat_of_head? hx))

theorem stripZeros_of_head? {b : Bytes} (h : b.head? ≠ some 0) : stripZeros b = b := by
  cases b with
  | nil => rfl
  | cons x rest =>
      have hx : x ≠ 0 := fun hx => h (hx ▸ rfl)
      exact List.dropWhile_cons_of_neg (by simpa using hx)

/-- Digits below a number add their own count of bits to it. -/
theorem natBits_mul_add {x digits low : Nat} (hx : x ≠ 0) (hlow : low < 2 ^ digits) :
    natBits (x * 2 ^ digits + low) = digits + natBits x := by
  have hpos : 0 < 2 ^ digits := Nat.two_pow_pos digits
  apply Nat.le_antisymm
  · have hbits : x + 1 ≤ 2 ^ natBits x := natBits_le.mp (Nat.le_refl _)
    rw [natBits_le, Nat.pow_add, Nat.mul_comm (2 ^ digits)]
    calc x * 2 ^ digits + low < (x + 1) * 2 ^ digits := by rw [Nat.succ_mul]; omega
      _ ≤ 2 ^ natBits x * 2 ^ digits := Nat.mul_le_mul_right _ hbits
  · have hlt : x * 2 ^ digits + low < 2 ^ natBits (x * 2 ^ digits + low) :=
      natBits_le.mp (Nat.le_refl _)
    generalize natBits (x * 2 ^ digits + low) = k at hlt
    have hmul : x * 2 ^ digits < 2 ^ k := by omega
    have hdigits : digits ≤ k := by
      have hone : 2 ^ digits ≤ x * 2 ^ digits := Nat.le_mul_of_pos_left _ (Nat.pos_of_ne_zero hx)
      exact (Nat.pow_lt_pow_iff_right (by decide)).mp (hone.trans_lt hmul) |>.le
    have hxk : x < 2 ^ (k - digits) := by
      rw [← Nat.sub_add_cancel hdigits, Nat.pow_add] at hmul
      simpa using Nat.lt_of_mul_lt_mul_right hmul
    have := natBits_le.mpr hxk
    omega

theorem toNat_stripZeros (b : Bytes) : toNat (stripZeros b) = toNat b := by
  induction b with
  | nil => rfl
  | cons x rest ih =>
      by_cases hx : x = 0
      · rw [hx, toNat_cons]
        show toNat (stripZeros rest) = _
        rw [ih]
        simp
      · rw [stripZeros_of_head? (head?_cons_ne hx)]

theorem head?_stripZeros (b : Bytes) : (stripZeros b).head? ≠ some 0 := by
  intro h
  have := List.head?_dropWhile_not (p := (· == (0 : UInt8))) (l := b)
  rw [stripZeros] at h
  rw [h] at this
  simp at this

/-- The size in bits is that of the number, whatever zeros stand in front of it. -/
theorem bitLength_eq (b : Bytes) : bitLength b = natBits (toNat b) := by
  have hhead := head?_stripZeros b
  rw [← toNat_stripZeros b]
  unfold bitLength
  cases hstrip : stripZeros b with
  | nil => rfl
  | cons x rest =>
      rw [hstrip] at hhead
      have hx : x.toNat ≠ 0 := fun hx => hhead (congrArg some (UInt8.toNat_inj.mp hx))
      have hpow : 256 ^ rest.length = 2 ^ (8 * rest.length) := by rw [Nat.pow_mul]
      have hrest : toNat rest < 2 ^ (8 * rest.length) := hpow ▸ toNat_lt rest
      show 8 * rest.length + natBits x.toNat = natBits (toNat (x :: rest))
      rw [toNat_cons, hpow, natBits_mul_add hx hrest]

theorem bitLength_ofNat (n : Nat) : bitLength (ofNat n) = natBits n := by
  rw [bitLength_eq, toNat_ofNat]

/-- The size in bits is the least number of binary digits that hold the number. -/
theorem bitLength_le {b : Bytes} {n : Nat} : bitLength b ≤ n ↔ toNat b < 2 ^ n := by
  rw [bitLength_eq, natBits_le]

theorem toNat_eq_zero_iff {b : Bytes} : toNat b = 0 ↔ ∀ x ∈ b, x = 0 := by
  induction b with
  | nil => simp
  | cons x rest ih =>
      have hfirst : x.toNat * 256 ^ rest.length = 0 ↔ x = 0 := by
        simp [← UInt8.toNat_inj]
      rw [toNat_cons, Nat.add_eq_zero_iff, hfirst, ih, List.forall_mem_cons]

theorem bitLength_eq_zero_iff {b : Bytes} : bitLength b = 0 ↔ toNat b = 0 := by
  rw [← Nat.le_zero, bitLength_le]
  exact Nat.lt_one_iff

theorem bitLength_replicate_zero (n : Nat) (b : Bytes) :
    bitLength (List.replicate n 0 ++ b) = bitLength b := by
  rw [bitLength_eq, toNat_replicate_zero, ← bitLength_eq]

/-- What is left without leading zeros has the size of the number in bytes. -/
theorem length_stripZeros (b : Bytes) : (stripZeros b).length = (bitLength b + 7) / 8 := by
  rw [← ofNat_toNat (head?_stripZeros b), length_ofNat, toNat_stripZeros, bitLength_eq]

/-- No byte string that writes the number is shorter. -/
theorem length_stripZeros_le {b form : Bytes} (h : toNat form = toNat b) :
    (stripZeros b).length ≤ form.length := by
  rw [← ofNat_toNat (head?_stripZeros b), toNat_stripZeros, ← h, length_ofNat_le]
  exact toNat_lt form

/-- A number has a byte that is not zero at its front. -/
theorem pow_le_of_natBits {n : Nat} (hn : 0 < (natBits n + 7) / 8) :
    256 ^ ((natBits n + 7) / 8 - 1) ≤ n := by
  by_contra hlt
  have hpow : 256 ^ ((natBits n + 7) / 8 - 1) = 2 ^ (8 * ((natBits n + 7) / 8 - 1)) := by
    rw [Nat.pow_mul]
  have hbits : natBits n ≤ 8 * ((natBits n + 7) / 8 - 1) := by
    rw [natBits_le, ← hpow]
    exact Nat.lt_of_not_le hlt
  omega

/-! ## Numbers without leading zeros -/

/-- A number has no leading zeros, zero itself being one zero byte. -/
def Minimal (b : Bytes) : Prop := b ≠ [] ∧ (b.head? = some 0 → b = [0])

variable {a b : Bytes}

/-- Zero is one zero byte, and other numbers start with another byte. -/
theorem Minimal.cases (h : Minimal b) : b = [0] ∨ ∃ x rest, x ≠ 0 ∧ b = x :: rest := by
  obtain ⟨hne, hzero⟩ := h
  cases b with
  | nil => exact absurd rfl hne
  | cons x rest =>
      by_cases hx : x = 0
      · exact .inl (hzero (by rw [hx]; rfl))
      · exact .inr ⟨x, rest, hx, rfl⟩

theorem minimal_cons {x : UInt8} {rest : Bytes} (hx : x ≠ 0) : Minimal (x :: rest) :=
  ⟨List.cons_ne_nil _ _, fun h => absurd (Option.some.inj h) hx⟩

theorem minimal_zero : Minimal [0] := ⟨List.cons_ne_nil _ _, fun _ => rfl⟩

/-- A number is written in one way only. -/
theorem Minimal.eq_of_toNat_eq (ha : Minimal a) (hb : Minimal b) (h : toNat a = toNat b) :
    a = b := by
  rcases ha.cases with rfl | ⟨x, rest, hx, rfl⟩
  · rcases hb.cases with rfl | ⟨y, rest, hy, rfl⟩
    · rfl
    · exact absurd h.symm (toNat_cons_ne_zero hy)
  · rcases hb.cases with rfl | ⟨y, rest', hy, rfl⟩
    · exact absurd h (toNat_cons_ne_zero hx)
    · rw [← ofNat_toNat (head?_cons_ne hx), h, ofNat_toNat (head?_cons_ne hy)]

theorem minimal_magnitude (b : Bytes) : Minimal (magnitude b) := by
  have hhead := head?_stripZeros b
  unfold magnitude
  split
  · exact minimal_zero
  · next x rest hstrip =>
      rw [hstrip] at hhead
      exact minimal_cons fun hx => hhead (hx ▸ rfl)

theorem toNat_magnitude (b : Bytes) : toNat (magnitude b) = toNat b := by
  rw [← toNat_stripZeros b]
  unfold magnitude
  split
  · next hstrip => rw [hstrip]; rfl
  · next hstrip => rw [hstrip]

/-- Every number is written without leading zeros. -/
theorem exists_minimal (n : Nat) : ∃ b, Minimal b ∧ toNat b = n :=
  ⟨magnitude (ofNat n), minimal_magnitude _, (toNat_magnitude _).trans (toNat_ofNat n)⟩

theorem length_magnitude_le (h : b ≠ []) : (magnitude b).length ≤ b.length := by
  have hle : (stripZeros b).length ≤ b.length := (List.dropWhile_sublist _).length_le
  unfold magnitude
  split
  · exact List.length_pos_iff.mpr h
  · next hstrip => exact hstrip ▸ hle

theorem toNat_justifyRight (width : Nat) (b : Bytes) : toNat (justifyRight width b) = toNat b :=
  toNat_replicate_zero _ b

theorem Minimal.magnitude_eq (h : Minimal b) (hnumber : toNat a = toNat b) : magnitude a = b :=
  (minimal_magnitude a).eq_of_toNat_eq h ((toNat_magnitude a).trans hnumber)

/-- Zeros that are added are removed again. -/
theorem Minimal.magnitude_justifyRight (h : Minimal b) (width : Nat) :
    magnitude (justifyRight width b) = b :=
  h.magnitude_eq (toNat_justifyRight width b)

/-- Zeros that are removed are added again. -/
theorem justifyRight_magnitude (h : b ≠ []) : justifyRight b.length (magnitude b) = b := by
  apply eq_of_toNat_eq (length_justifyRight (length_magnitude_le h))
  rw [toNat_justifyRight, toNat_magnitude]

/-- Zeros may be added in two steps. -/
theorem justifyRight_justifyRight {width inner : Nat} (hwidth : inner ≤ width)
    (h : b.length ≤ inner) : justifyRight width (justifyRight inner b) = justifyRight width b := by
  apply eq_of_toNat_eq
  · rw [length_justifyRight ((length_justifyRight h).le.trans hwidth),
      length_justifyRight (h.trans hwidth)]
  · simp only [toNat_justifyRight]

/-! ## Some of the zeros -/

/-- The bytes that a number needs without leading zeros. -/
theorem Minimal.length_le_iff {width : Nat} (h : Minimal b) (hwidth : 0 < width) :
    b.length ≤ width ↔ toNat b < 256 ^ width := by
  constructor
  · intro hle
    exact (toNat_lt b).trans_le (Nat.pow_le_pow_right (by decide) hle)
  · intro hlt
    rcases h.cases with rfl | ⟨x, rest, hx, rfl⟩
    · exact hwidth
    · exact (Nat.pow_lt_pow_iff_right (by decide)).mp ((le_toNat_of_head? hx).trans_lt hlt)

/-- A byte string is the field that its number is written in, after the zeros that are left over. -/
theorem replicate_append_justifyRight {width : Nat} (hlength : (magnitude b).length ≤ width)
    (hwidth : width ≤ b.length) :
    List.replicate (b.length - width) 0 ++ justifyRight width (magnitude b) = b := by
  have hb : b ≠ [] :=
    List.ne_nil_of_length_pos
      ((List.length_pos_iff.mpr (minimal_magnitude b).1).trans_le (hlength.trans hwidth))
  have hwhole := justifyRight_justifyRight hwidth hlength
  rw [justifyRight_magnitude hb, justifyRight, length_justifyRight hlength] at hwhole
  exact hwhole

/-- The field that a number is written in is what remains without the zeros that are left over. -/
theorem justifyRight_magnitude_eq_drop {width : Nat} (hlength : (magnitude b).length ≤ width)
    (hwidth : width ≤ b.length) :
    justifyRight width (magnitude b) = b.drop (b.length - width) := by
  have hdrop := congrArg (List.drop (b.length - width))
    (replicate_append_justifyRight hlength hwidth)
  rw [List.drop_left' List.length_replicate] at hdrop
  exact hdrop

/-- A byte string starts with as many zeros as its number leaves over. -/
theorem replicate_zero_prefix_iff {n : Nat} (hn : n < b.length) :
    List.replicate n 0 <+: b ↔ (magnitude b).length + n ≤ b.length := by
  constructor
  · rintro ⟨rest, rfl⟩
    have hrest : rest ≠ [] := by
      rintro rfl
      simp at hn
    -- the number is that of the rest
    have hsame : magnitude (List.replicate n 0 ++ rest) = magnitude rest :=
      (minimal_magnitude rest).magnitude_eq
        ((toNat_replicate_zero n rest).trans (toNat_magnitude rest).symm)
    have hle := length_magnitude_le hrest
    rw [hsame, List.length_append, List.length_replicate]
    omega
  · intro hle
    have hlength : (magnitude b).length ≤ b.length - n := by omega
    have hwhole := replicate_append_justifyRight hlength (Nat.sub_le _ _)
    rw [Nat.sub_sub_self hn.le] at hwhole
    exact ⟨_, hwhole⟩

end Cryptoki.Bytes
