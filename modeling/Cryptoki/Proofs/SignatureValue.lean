import Cryptoki.SignatureValue
import Cryptoki.Proofs.Der

/-!
# `Cryptoki.Proofs.SignatureValue` — an accepted signature has one encoding

Reading accepts the encoding of a pair and nothing else, because each part of it, the length, the
tagged value and the number, is accepted in its one form only. A block then holds the pair as well as
its encoding does: the zeros that fill its halves are removed again on the way back.

## Contents
- `SignatureValue.Minimal`, `SignatureValue.WritesPair` — the pairs, and the rules of their encoding.
- `SignatureValue.writesPair_encoding`, `SignatureValue.WritesPair.eq` — one encoding for each pair.
- `SignatureValue.decode_eq_ok_iff` — what is read is what is written.
- `SignatureValue.derOfBlock_of_toBlock` — from a pair to its block and back.
- `SignatureValue.canonical` — the encoding of an accepted signature is unique.
-/

namespace Cryptoki.SignatureValue

/-! ## The rules -/

/-- Both numbers have no leading zeros, zero being one zero byte. -/
structure Minimal (v : SignatureValue) : Prop where
  r : v.r.Minimal
  s : v.s.Minimal

/-- The SEQUENCE of the INTEGERs of two numbers, and nothing after either of them. -/
def WritesPair (r s : Int) (d : Bytes) : Prop :=
  ∃ first second rInteger sInteger,
    Der.WritesInteger r first ∧ Der.WritesValue Der.integerTag first rInteger ∧
    Der.WritesInteger s second ∧ Der.WritesValue Der.integerTag second sInteger ∧
    Der.WritesValue Der.sequenceTag (rInteger ++ sInteger) d

variable {v : SignatureValue} {d block content rest : Bytes} {width : Nat}

/-! ## Written -/

/-- The parts of an encoding are shorter than the whole. -/
theorem lengths_of_encoding (h : v.encoding.length ≤ Der.maxLength) :
    (Der.naturalContent v.r).length ≤ Der.maxLength ∧
    (Der.naturalContent v.s).length ≤ Der.maxLength ∧
    (Der.tlv Der.integerTag (Der.naturalContent v.r)
      ++ Der.tlv Der.integerTag (Der.naturalContent v.s)).length ≤ Der.maxLength := by
  have hr := Der.length_lt_length_tlv Der.integerTag (Der.naturalContent v.r)
  have hs := Der.length_lt_length_tlv Der.integerTag (Der.naturalContent v.s)
  have hwhole := (Der.length_lt_length_tlv Der.sequenceTag _).trans_le h
  rw [List.length_append] at hwhole ⊢
  omega

theorem writesPair_encoding (hv : v.Minimal) (h : v.encoding.length ≤ Der.maxLength) :
    WritesPair (Bytes.toNat v.r) (Bytes.toNat v.s) v.encoding := by
  obtain ⟨hr, hs, hwhole⟩ := lengths_of_encoding h
  exact ⟨_, _, _, _, Der.writesInteger_naturalContent hv.r, Der.writesValue_tlv hr,
    Der.writesInteger_naturalContent hv.s, Der.writesValue_tlv hs, Der.writesValue_tlv hwhole⟩

/-- The rules leave no choice. -/
theorem WritesPair.eq (hv : v.Minimal) (h : WritesPair (Bytes.toNat v.r) (Bytes.toNat v.s) d) :
    d = v.encoding := by
  obtain ⟨first, second, rInteger, sInteger, hr, hrValue, hs, hsValue, hd⟩ := h
  obtain rfl := hr.eq hv.r
  obtain rfl := hs.eq hv.s
  rw [hd.eq, hrValue.eq, hsValue.eq]
  rfl

/-! ## Read -/

theorem readInteger_tlv {magnitude : Bytes} (hm : magnitude.Minimal)
    (h : (Der.naturalContent magnitude).length ≤ Der.maxLength) (rest : Bytes) :
    readInteger (Der.tlv Der.integerTag (Der.naturalContent magnitude) ++ rest)
      = some (magnitude, rest) := by
  simp [readInteger, Der.readTlv_tlv _ h, Der.readNatural_naturalContent hm]

theorem eq_of_readInteger {magnitude : Bytes} (h : readInteger d = some (magnitude, rest)) :
    magnitude.Minimal ∧ d = Der.tlv Der.integerTag (Der.naturalContent magnitude) ++ rest := by
  simp only [readInteger, Option.bind_eq_bind, Option.bind_eq_some_iff, Option.pure_def,
    Option.some.injEq, Prod.mk.injEq] at h
  obtain ⟨⟨content, tail⟩, hvalue, natural, hnatural, rfl, rfl⟩ := h
  obtain ⟨hm, rfl⟩ := Der.eq_of_readNatural hnatural
  exact ⟨hm, (Der.eq_of_readTlv hvalue).2⟩

/-- The steps of reading a pair. -/
theorem decode?_eq_some :
    decode? d = some v ↔ d.length ≤ Der.maxLength ∧ ∃ content tail,
      Der.readTlv Der.sequenceTag d = some (content, []) ∧
      readInteger content = some (v.r, tail) ∧ readInteger tail = some (v.s, []) := by
  simp only [decode?, Option.bind_eq_bind, Option.bind_eq_some_iff, Option.guard_eq_some',
    Option.pure_def, Option.some.injEq, Prod.exists, List.isEmpty_iff, exists_const]
  constructor
  · rintro ⟨hlength, content, rest, hsequence, rfl, r, tail, hr, s, rest, hs, rfl, rfl⟩
    exact ⟨hlength, content, tail, hsequence, hr, hs⟩
  · rintro ⟨hlength, content, tail, hsequence, hr, hs⟩
    exact ⟨hlength, content, [], hsequence, rfl, v.r, tail, hr, v.s, [], hs, rfl, rfl⟩

theorem decode?_encoding (hv : v.Minimal) (h : v.encoding.length ≤ Der.maxLength) :
    decode? v.encoding = some v := by
  obtain ⟨hr, hs, hwhole⟩ := lengths_of_encoding h
  have hsequence := Der.readTlv_tlv Der.sequenceTag hwhole []
  have hsecond := readInteger_tlv hv.s hs []
  rw [List.append_nil] at hsequence hsecond
  exact decode?_eq_some.mpr ⟨h, _, _, hsequence, readInteger_tlv hv.r hr _, hsecond⟩

/-- What is read is a pair, as it is written. -/
theorem eq_of_decode? (h : decode? d = some v) :
    v.Minimal ∧ d.length ≤ Der.maxLength ∧ d = v.encoding := by
  obtain ⟨hlength, content, tail, hsequence, hr, hs⟩ := decode?_eq_some.mp h
  obtain ⟨hrMinimal, rfl⟩ := eq_of_readInteger hr
  obtain ⟨hsMinimal, rfl⟩ := eq_of_readInteger hs
  refine ⟨⟨hrMinimal, hsMinimal⟩, hlength, ?_⟩
  rw [(Der.eq_of_readTlv hsequence).2, List.append_nil, List.append_nil]
  rfl

/-- A pair is read exactly where its encoding stands. -/
theorem decode_eq_ok_iff :
    decode d = .ok v ↔ v.Minimal ∧ d.length ≤ Der.maxLength ∧ d = v.encoding := by
  have hsome : decode d = .ok v ↔ decode? d = some v := by
    unfold decode
    cases decode? d with
    | none => exact iff_of_false nofun nofun
    | some read => exact ⟨fun h => congrArg some (Except.ok.inj h), fun h => by
        rw [Option.some.inj h]⟩
  rw [hsome]
  constructor
  · exact eq_of_decode?
  · rintro ⟨hv, hlength, rfl⟩
    exact decode?_encoding hv hlength

/-! ## Blocks -/

theorem encode_eq_ok_iff : v.encode = .ok d ↔ d.length ≤ Der.maxLength ∧ d = v.encoding := by
  unfold encode Der.bounded
  split
  · next h =>
      constructor
      · intro hok
        obtain rfl := Except.ok.inj hok
        exact ⟨h, rfl⟩
      · rintro ⟨-, rfl⟩
        rfl
  · next h =>
      refine iff_of_false nofun ?_
      rintro ⟨hlength, rfl⟩
      exact h hlength

/-- The halves of a block hold the pair, with zeros before each number. -/
theorem toBlock_eq_ok (h : v.toBlock width = .ok block) :
    v.r.length ≤ width ∧ v.s.length ≤ width ∧
    block = Bytes.justifyRight width v.r ++ Bytes.justifyRight width v.s := by
  simp only [toBlock, field] at h
  split at h
  · next hr =>
      split at h
      · next hs => exact ⟨hr, hs, (Except.ok.inj h).symm⟩
      · cases h
  · cases h

/-- Two halves of equal width are split where they meet. -/
theorem ofBlock_append {left right : Bytes} (hleft : left ≠ [])
    (hwidth : left.length = right.length) :
    ofBlock (left ++ right) = .ok ⟨Bytes.magnitude left, Bytes.magnitude right⟩ := by
  have hne : left ++ right ≠ [] := List.append_ne_nil_of_left_ne_nil hleft right
  have hlength : (left ++ right).length = 2 * left.length := by
    rw [List.length_append]
    omega
  have hhalf : (left ++ right).length / 2 = left.length := by omega
  rw [ofBlock, if_pos ⟨hne, by omega⟩]
  simp only [hhalf, List.take_left, List.drop_left]

/-- The pair is read off the halves again. -/
theorem ofBlock_of_toBlock (hv : v.Minimal) (h : v.toBlock width = .ok block) :
    ofBlock block = .ok v := by
  obtain ⟨hr, hs, rfl⟩ := toBlock_eq_ok h
  have hrLength := Bytes.length_justifyRight hr
  have hsLength := Bytes.length_justifyRight hs
  have hne : Bytes.justifyRight width v.r ≠ [] := by
    have hpos : 0 < v.r.length := List.length_pos_iff.mpr hv.r.1
    apply List.ne_nil_of_length_pos
    omega
  rw [ofBlock_append hne (hrLength.trans hsLength.symm), hv.r.magnitude_justifyRight,
    hv.s.magnitude_justifyRight]

/-- The encoding of a pair is the encoding of each of its blocks. -/
theorem derOfBlock_of_toBlock (hd : decode d = .ok v) (h : v.toBlock width = .ok block) :
    derOfBlock block = .ok d := by
  obtain ⟨hv, hencoding⟩ := decode_eq_ok_iff.mp hd
  rw [derOfBlock, ofBlock_of_toBlock hv h]
  show v.encode.mapError BlockError.der = _
  rw [encode_eq_ok_iff.mpr hencoding]
  rfl

/-- A block has no encoding if it does not split into two halves, or the encoding is too long. -/
theorem derOfBlock_error_iff :
    (∃ cause, derOfBlock block = .error cause) ↔
      block = [] ∨ block.length % 2 = 1 ∨
        ∃ v, ofBlock block = .ok v ∧ Der.maxLength < v.encoding.length := by
  by_cases heven : block ≠ [] ∧ block.length % 2 = 0
  · have hblock : ∃ v, ofBlock block = .ok v := ⟨_, if_pos heven⟩
    obtain ⟨v, hv⟩ := hblock
    have hder : derOfBlock block = v.encode.mapError .der := by
      rw [derOfBlock, hv]
      rfl
    have hodd : block.length % 2 ≠ 1 := by omega
    simp only [hder, hv, heven.1, hodd, false_or, Except.ok.injEq, exists_eq_left']
    unfold encode Der.bounded
    split
    · next hle => exact iff_of_false nofun (Nat.not_lt.mpr hle)
    · next hlt => exact iff_of_true ⟨_, rfl⟩ (Nat.lt_of_not_le hlt)
  · apply iff_of_true
    · refine ⟨.uneven block.length, ?_⟩
      rw [derOfBlock, ofBlock, if_neg heven]
      rfl
    · by_cases hne : block = []
      · exact .inl hne
      · have hodd : ¬ block.length % 2 = 0 := fun h => heven ⟨hne, h⟩
        exact .inr (.inl (by omega))

/-- A block that is accepted from an encoding holds the pair that the encoding writes. -/
theorem exists_toBlock (h : dsaBlock d = .ok block ∨ ecdsaBlock d = .ok block) :
    ∃ v width, decode d = .ok v ∧ v.toBlock width = .ok block := by
  simp only [dsaBlock, ecdsaBlock] at h
  cases hd : decode d with
  | error cause =>
      rw [hd] at h
      rcases h with h | h <;> cases h
  | ok v =>
      rw [hd] at h
      rcases h with h | h
      · exact ⟨v, _, rfl, h⟩
      · exact ⟨v, _, rfl, h⟩

theorem derOfBlock_of_accepted (h : dsaBlock d = .ok block ∨ ecdsaBlock d = .ok block) :
    derOfBlock block = .ok d := by
  obtain ⟨v, width, hd, hblock⟩ := exists_toBlock h
  exact derOfBlock_of_toBlock hd hblock

/-- The byte strings that are accepted are the encodings of pairs of numbers. -/
theorem exists_decode_iff (hlength : d.length ≤ Der.maxLength) :
    (∃ v, decode d = .ok v) ↔ ∃ r s : Nat, WritesPair r s d := by
  constructor
  · rintro ⟨v, hd⟩
    obtain ⟨hv, -, rfl⟩ := decode_eq_ok_iff.mp hd
    exact ⟨_, _, writesPair_encoding hv hlength⟩
  · rintro ⟨r, s, hpair⟩
    obtain ⟨first, hfirst, rfl⟩ := Bytes.exists_minimal r
    obtain ⟨second, hsecond, rfl⟩ := Bytes.exists_minimal s
    have hv : Minimal ⟨first, second⟩ := ⟨hfirst, hsecond⟩
    exact ⟨_, decode_eq_ok_iff.mpr ⟨hv, hlength, hpair.eq hv⟩⟩

/-- **An accepted signature has exactly one encoding.** Within the length that encodings may have,
    a byte string is accepted exactly if it is the SEQUENCE of the INTEGERs of two numbers by the
    rules of the encoding, and what is read off it is the two numbers without leading zeros. A block
    that is made of what was read encodes to the same byte string, so no two byte strings make the
    same block. -/
theorem canonical :
    (∀ d : Bytes, d.length ≤ Der.maxLength →
      ((∃ v, decode d = .ok v) ↔ ∃ r s : Nat, WritesPair r s d) ∧
      ∀ v, decode d = .ok v ↔ v.Minimal ∧ WritesPair (Bytes.toNat v.r) (Bytes.toNat v.s) d) ∧
    (∀ d block : Bytes, dsaBlock d = .ok block ∨ ecdsaBlock d = .ok block →
      derOfBlock block = .ok d) ∧
    (∀ d d' block : Bytes, dsaBlock d = .ok block ∨ ecdsaBlock d = .ok block →
      dsaBlock d' = .ok block ∨ ecdsaBlock d' = .ok block → d = d') := by
  refine ⟨fun d hlength => ⟨exists_decode_iff hlength, fun v => ?_⟩,
    fun d block => derOfBlock_of_accepted, ?_⟩
  · rw [decode_eq_ok_iff]
    constructor
    · rintro ⟨hv, -, rfl⟩
      exact ⟨hv, writesPair_encoding hv hlength⟩
    · rintro ⟨hv, hpair⟩
      exact ⟨hv, hlength, hpair.eq hv⟩
  · intro d d' block hd hd'
    have hsame : (Except.ok d : Except BlockError Bytes) = .ok d' :=
      (derOfBlock_of_accepted hd).symm.trans (derOfBlock_of_accepted hd')
    exact Except.ok.inj hsame

/-- `r = 128` needs the zero byte before its top bit, in the encoding and not in the block. -/
theorem canonical_of_top_bit :
    WritesPair 128 1 [0x30, 0x07, 0x02, 0x02, 0x00, 0x80, 0x02, 0x01, 0x01] ∧
    derOfBlock [0x80, 0x01] = .ok [0x30, 0x07, 0x02, 0x02, 0x00, 0x80, 0x02, 0x01, 0x01] ∧
    ∀ d, ecdsaBlock d = .ok [0x80, 0x01] →
      d = [0x30, 0x07, 0x02, 0x02, 0x00, 0x80, 0x02, 0x01, 0x01] :=
  have hblock : ecdsaBlock [0x30, 0x07, 0x02, 0x02, 0x00, 0x80, 0x02, 0x01, 0x01]
      = .ok [0x80, 0x01] := by decide +kernel
  ⟨(((canonical.1 _ (by decide)).2 ⟨[0x80], [0x01]⟩).mp (by decide +kernel)).2,
    canonical.2.1 _ _ (.inr hblock), fun _ hd => canonical.2.2 _ _ _ (.inr hd) (.inr hblock)⟩

end Cryptoki.SignatureValue
