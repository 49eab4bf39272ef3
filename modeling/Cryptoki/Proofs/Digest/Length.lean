import Cryptoki.Digest.Stream

/-!
# `Cryptoki.Proofs.Digest.Length` — digests have the length their algorithm announces

The output of most algorithms is cut from words of fixed width. MD2 reads it off a state of sixteen
bytes, which every block keeps at that length.

## Contents
- `BlockHash.absorb_induction` — what every block keeps holds of the last chaining value.
- `MD2.length_mix` — the MD2 state keeps its length.
- `DigestAlgorithm.length_digest` — the length of a digest.
-/

namespace Cryptoki

/-! ## MD2 -/

/-- What holds at the start and is kept by each block holds after any number of blocks. -/
theorem BlockHash.absorb_induction {H : BlockHash} {P : H.Chain → Prop}
    (hstep : ∀ chain block, P chain → P (H.compress chain block)) {chain : H.Chain}
    (h : P chain) (data : Bytes) : P (H.absorb chain data).1 := by
  induction chain, data using BlockHash.absorb.induct H with
  | case1 chain data hlt =>
      rw [absorb, if_pos hlt]
      exact h
  | case2 chain data hle ih =>
      rw [absorb, if_neg hle]
      exact ih (hstep _ _ h)

namespace MD2

theorem length_substitutePass (t : UInt8) (bytes : Bytes) :
    (substitutePass t bytes).2.length = bytes.length := by
  induction bytes generalizing t with
  | nil => rfl
  | cons x rest ih => simp only [substitutePass, List.length_cons, ih]

theorem length_substitutePasses (passes : Nat) (round t : UInt8) (bytes : Bytes) :
    (substitutePasses passes round t bytes).length = bytes.length := by
  induction passes generalizing round t bytes with
  | zero => rfl
  | succ passes ih => rw [substitutePasses, ih, length_substitutePass]

/-- The state is the front of what was mixed, and that is at least as long. -/
theorem length_mix {state : Bytes} (h : state.length = 16) (block : Bytes) :
    (mix state block).length = 16 := by
  rw [mix, List.length_take, length_substitutePasses, List.length_append, List.length_append, h]
  omega

theorem state_compress (c : Chain) (block : Bytes) :
    (blockHash.compress c block : Chain).state = mix c.state block := by
  with_reducible_and_instances simp only [blockHash]

theorem output_eq (c : Chain) : blockHash.output c = mix c.state c.checksum := by
  with_reducible_and_instances simp only [blockHash]

theorem length_output {c : Chain} (h : c.state.length = 16) :
    (blockHash.output c).length = 16 := by
  rw [output_eq]
  exact length_mix h _

theorem length_hash (message : Bytes) : (blockHash.hash message).length = 16 := by
  apply length_output
  apply BlockHash.absorb_induction (H := blockHash)
    (P := fun chain => (Chain.state chain).length = 16)
  · intro chain block h
    have hlength := congrArg List.length (state_compress chain block)
    exact hlength.trans (length_mix h block)
  · simp only [blockHash, List.length_replicate]

end MD2

/-! ## Every algorithm -/

namespace SHA2

theorem length_output {W : Type} (F : Family W) (v : Chain W) :
    (output F v).length = 8 * F.width := by
  simp only [output, List.flatMap_cons, List.flatMap_nil, List.length_append, List.length_nil,
    Bytes.length_ofNatWidth]
  omega

theorem length_hash32 (start : Chain UInt32) {length : Nat} (h : length ≤ 32) (message : Bytes) :
    ((blockHash32 start length).hash message).length = length :=
  List.length_take_of_le (Nat.le_trans h (Nat.le_of_eq (length_output words32 _).symm))

theorem length_hash64 (start : Chain UInt64) {length : Nat} (h : length ≤ 64) (message : Bytes) :
    ((blockHash64 start length).hash message).length = length :=
  List.length_take_of_le (Nat.le_trans h (Nat.le_of_eq (length_output words64 _).symm))

end SHA2

/-- A digest has the length that its algorithm announces. -/
theorem DigestAlgorithm.length_digest (a : DigestAlgorithm) (message : Bytes) :
    (a.digest message).length = a.outputLength := by
  cases a with
  | md2 => exact MD2.length_hash message
  | md5 =>
      show (MD5.blockHash.output _).length = 16
      simp only [MD5.blockHash, MD5.bytesOfWord, List.length_append, List.length_reverse,
        Bytes.length_ofNatWidth]
  | sha1 =>
      show (SHA1.blockHash.output _).length = 20
      simp only [SHA1.blockHash, SHA1.bytesOfWord, List.length_append, Bytes.length_ofNatWidth]
  | sha224 => exact SHA2.length_hash32 _ (by decide) message
  | sha256 => exact SHA2.length_hash32 _ (by decide) message
  | sha384 => exact SHA2.length_hash64 _ (by decide) message
  | sha512 => exact SHA2.length_hash64 _ (by decide) message

end Cryptoki
