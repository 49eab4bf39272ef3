import Cryptoki.BlockPadding
import Cryptoki.Bytes.Lemmas

/-!
# `Cryptoki.Proofs.BlockPadding` — padding that is put on is taken off again

The fill is told from what follows by its first byte that is not `FF`, and that is the zero before
the payload. So the payload may be any, and its own bytes do not matter. What is taken off is what
was put on, too: the size of the block and the payload leave no choice of the fill.

## Contents
- `BlockPadding.length_block` — blocks have their size.
- `BlockPadding.size_of_new`, `BlockPadding.size_of_ofBits` — the size, as given and for a modulus.
- `BlockPadding.toNat_block_lt_pow` — the number that a block writes.
- `BlockPadding.unpad_block` — the payload is found again.
- `BlockPadding.Padded`, `BlockPadding.padded_iff` — the form of a block, and the one block that has
  it.
- `BlockPadding.pad_eq_ok_iff`, `BlockPadding.unpad_eq_ok_iff` — padding produces that form, and
  takes off no other.
- `BlockPadding.inverse` — each undoes the other.
-/

namespace Cryptoki.BlockPadding

variable {p : BlockPadding} {data out : Bytes}

/-- A block has its size, if the payload fits. -/
theorem length_block (h : data.length ≤ p.capacity) : (block p.size data).length = p.size := by
  have hsize : 64 ≤ p.size := p.min_le_size
  simp only [capacity, paddingOverhead] at h
  simp only [block, List.length_cons, List.length_append, List.length_replicate]
  omega

theorem size_of_new {size : Nat} (h : new size = .ok p) : p.size = size := by
  unfold new at h
  split at h
  · exact (congrArg BlockPadding.size (Except.ok.inj h)).symm
  · cases h

/-- Padding for a key has the size of its modulus. -/
theorem size_of_ofBits {bits : Nat} (h : ofBits bits = .ok p) : p.size = (bits + 7) / 8 :=
  size_of_new h

/-- A block starts with a zero, so its number has a byte less. -/
theorem toNat_block_lt_pow {size : Nat} (h : data.length + 3 ≤ size) :
    Bytes.toNat (block size data) < 256 ^ (size - 1) := by
  have hlength : (block size data).tail.length = size - 1 := by
    simp only [block, List.tail_cons, List.length_cons, List.length_append, List.length_replicate]
    omega
  have htail : Bytes.toNat (block size data) = Bytes.toNat (block size data).tail := by
    rw [block, List.tail_cons, Bytes.toNat_cons]
    simp
  rw [htail, ← hlength]
  exact Bytes.toNat_lt _

/-- The fill ends where the zero stands. -/
theorem afterFill_fill {n : Nat} (h : paddingOverhead - 3 ≤ n) (data : Bytes) :
    afterFill (List.replicate n 0xff ++ 0x00 :: data) = some data := by
  have hfill : (List.replicate n (0xff : UInt8) ++ 0x00 :: data).takeWhile (· == 0xff)
      = List.replicate n 0xff := by
    rw [List.takeWhile_append_of_pos (by simp)]
    simp
  have hrest : (List.replicate n (0xff : UInt8) ++ 0x00 :: data).drop n = 0x00 :: data :=
    List.drop_left' List.length_replicate
  simp only [afterFill, hfill, List.length_replicate, hrest, if_pos h]

/-- **The payload of a block is the one that was padded.** -/
theorem unpad_block (h : data.length ≤ p.capacity) : p.unpad (block p.size data) = .ok data := by
  have hfill : paddingOverhead - 3 ≤ p.size - 3 - data.length := by
    have hsize : 64 ≤ p.size := p.min_le_size
    simp only [capacity, paddingOverhead] at h ⊢
    omega
  unfold unpad
  rw [if_pos (length_block h)]
  simp only [block, afterFill_fill hfill]

/-! ## The form of a block -/

/-- A block of the right size that holds a payload: `00 01`, at least eight bytes `FF`, `00`, and the
    payload. -/
def Padded (p : BlockPadding) (data out : Bytes) : Prop :=
  out.length = p.size
    ∧ ∃ fill, 8 ≤ fill ∧ out = 0x00 :: 0x01 :: (List.replicate fill 0xff ++ 0x00 :: data)

/-- The size leaves no choice of the fill. -/
theorem padded_iff : p.Padded data out ↔ data.length ≤ p.capacity ∧ out = block p.size data := by
  have hsize : 64 ≤ p.size := p.min_le_size
  simp only [capacity, paddingOverhead]
  constructor
  · rintro ⟨hlength, fill, hfill, rfl⟩
    simp only [List.length_cons, List.length_append, List.length_replicate] at hlength
    obtain rfl : fill = p.size - 3 - data.length := by omega
    exact ⟨by omega, rfl⟩
  · rintro ⟨hfits, rfl⟩
    exact ⟨length_block hfits, _, by omega, rfl⟩

/-- Payloads that fit are brought to that form. -/
theorem pad_eq_ok_iff : p.pad data = .ok out ↔ p.Padded data out := by
  rw [padded_iff]
  unfold pad
  split
  · next hfits =>
      constructor
      · intro h
        exact ⟨hfits, (Except.ok.inj h).symm⟩
      · rintro ⟨_, rfl⟩
        rfl
  · next hlong => exact iff_of_false nofun fun h => hlong h.1

theorem length_of_pad (h : p.pad data = .ok out) :
    out = block p.size data ∧ out.length = p.size := by
  have hpadded := pad_eq_ok_iff.mp h
  exact ⟨(padded_iff.mp hpadded).2, hpadded.1⟩

/-- What is read as fill is fill, and a zero ends it. -/
theorem eq_of_afterFill {body : Bytes} (h : afterFill body = some data) :
    ∃ fill, 8 ≤ fill ∧ body = List.replicate fill 0xff ++ 0x00 :: data := by
  simp only [afterFill] at h
  split at h
  · next rest hrest =>
      split at h
      · next hfill =>
          obtain rfl := Option.some.inj h
          have hall : body.takeWhile (· == 0xff)
              = List.replicate (body.takeWhile (· == 0xff)).length 0xff := by
            rw [List.eq_replicate_iff]
            refine ⟨rfl, fun x hx => ?_⟩
            simpa using List.all_eq_true.mp List.all_takeWhile x hx
          refine ⟨_, hfill, ?_⟩
          rw [← hall, ← hrest, List.prefix_iff_eq_append.mp (List.takeWhile_prefix _)]
      · cases h
  · cases h

/-- Padding is taken off blocks of that form. -/
theorem unpad_eq_ok_iff : p.unpad out = .ok data ↔ p.Padded data out := by
  constructor
  · intro h
    unfold unpad at h
    split at h
    · next hlength =>
        split at h
        · next body =>
            split at h
            · next data' hrest =>
                obtain rfl := Except.ok.inj h
                obtain ⟨fill, hfill, rfl⟩ := eq_of_afterFill hrest
                exact ⟨hlength, fill, hfill, rfl⟩
            · cases h
        · cases h
    · cases h
  · intro h
    obtain ⟨hfits, rfl⟩ := padded_iff.mp h
    exact unpad_block hfits

/-- A block holds one payload. -/
theorem Padded.data_eq {data' : Bytes} (h : p.Padded data out) (h' : p.Padded data' out) :
    data' = data :=
  Except.ok.inj ((unpad_eq_ok_iff.mpr h').symm.trans (unpad_eq_ok_iff.mpr h))

/-- **Padding and taking it off undo each other.** For every size of blocks that padding allows, every
    payload and every byte string, the payload is padded to the string exactly if it is what remains of
    the string without padding. So it is exactly if the string has the size, and is `00 01`, at least
    eight bytes `FF`, `00`, and the payload, whatever the payload starts with; a string is that for one
    payload at most. The payloads that can be padded are those that leave room for eleven bytes. -/
theorem inverse {size : Nat} (h : new size = .ok p) (data out : Bytes) :
    (p.unpad out = .ok data ↔ p.pad data = .ok out)
      ∧ ((∃ block, p.pad data = .ok block) ↔ data.length ≤ size - 11)
      ∧ (p.unpad out = .ok data ↔ out.length = size
        ∧ ∃ fill, 8 ≤ fill ∧ out = 0x00 :: 0x01 :: (List.replicate fill 0xff ++ 0x00 :: data))
      ∧ ∀ data', p.Padded data out → p.Padded data' out → data' = data := by
  obtain rfl := size_of_new h
  refine ⟨unpad_eq_ok_iff.trans pad_eq_ok_iff.symm, ?_, unpad_eq_ok_iff, fun _ => Padded.data_eq⟩
  constructor
  · rintro ⟨block, hpad⟩
    exact (padded_iff.mp (pad_eq_ok_iff.mp hpad)).1
  · intro hfits
    exact ⟨_, pad_eq_ok_iff.mpr (padded_iff.mpr ⟨hfits, rfl⟩)⟩

/-- The largest payload of the smallest block, with bytes in front that look like fill and its end. -/
theorem inverse_of_full :
    let p : BlockPadding := ⟨64, by decide⟩
    let data : Bytes := 0xff :: 0x00 :: List.replicate 51 0xff
    new 64 = .ok p ∧ p.pad data = .ok (block 64 data)
      ∧ ∀ data', p.unpad (block 64 data) = .ok data' ↔ data' = data := by
  intro p data
  have h : new 64 = .ok p := rfl
  have hpad : p.pad data = .ok (block 64 data) := rfl
  refine ⟨h, hpad, fun data' => ⟨fun hunpad => ?_, ?_⟩⟩
  · exact (inverse h data _).2.2.2 data' (pad_eq_ok_iff.mp hpad) (unpad_eq_ok_iff.mp hunpad)
  · rintro rfl
    exact (inverse h data _).1.mpr hpad

end Cryptoki.BlockPadding
