import Cryptoki.Bytes

/-!
# `Cryptoki.Digest.BlockHash` — hashing block by block

A block hash folds the padded message into a chaining value, one block of fixed size after the
other, and reads the digest off the last value. A running hash holds the chaining value after the
full blocks seen so far, the bytes that do not fill a block yet, and the count of all bytes; the
padding depends on that count alone.

## Contents
- `BlockHash` — what one algorithm consists of.
- `BlockHash.absorb` — folding in the full blocks at the front of some bytes.
- `BlockHash.hash` — the digest of a whole message.
- `BlockHash.Running` — a hash in progress, with `update`, `finish` and `empty`.
- `BlockHash.lengthPadding` — the padding that ends with the message's length.
-/

namespace Cryptoki

/-- A digest algorithm that works on blocks of fixed size. -/
structure BlockHash where
  /-- The value carried from block to block. -/
  Chain : Type
  /-- The bytes in a block. -/
  blockSize : Nat
  blockSize_pos : 0 < blockSize
  /-- The value before the first block. -/
  start : Chain
  /-- One block folded into the value. -/
  compress : Chain → Bytes → Chain
  /-- What is appended to a message of that many bytes. -/
  padding : Nat → Bytes
  /-- The digest, read off the value after the last block. -/
  output : Chain → Bytes

namespace BlockHash

variable (H : BlockHash)

/-- Folds in the full blocks at the front and gives back what is left, less than a block. -/
def absorb (chain : H.Chain) (data : Bytes) : H.Chain × Bytes :=
  if (data.take H.blockSize).length < H.blockSize then (chain, data)
  else absorb (H.compress chain (data.take H.blockSize)) (data.drop H.blockSize)
termination_by data.length
decreasing_by
  rename_i h
  simp only [List.length_take, List.length_drop] at h ⊢
  have := H.blockSize_pos
  omega

/-- Less than a block is left as it is. -/
theorem absorb_of_lt {chain : H.Chain} {data : Bytes} (h : data.length < H.blockSize) :
    H.absorb chain data = (chain, data) := by
  rw [absorb, if_pos]
  rw [List.length_take]; omega

/-- A full block at the front is folded in first. -/
theorem absorb_of_le {chain : H.Chain} {data : Bytes} (h : H.blockSize ≤ data.length) :
    H.absorb chain data
      = H.absorb (H.compress chain (data.take H.blockSize)) (data.drop H.blockSize) := by
  rw [absorb, if_neg]
  rw [List.length_take]; omega

/-- The digest of a whole message: pad it and fold in its blocks. -/
def hash (message : Bytes) : Bytes :=
  H.output (H.absorb H.start (message ++ H.padding message.length)).1

/-- A hash in progress. -/
structure Running where
  /-- The value after the full blocks so far. -/
  chain : H.Chain
  /-- The bytes after the last full block. -/
  pending : Bytes
  /-- All bytes so far. -/
  total : Nat

namespace Running

variable {H}

/-- The hash of no bytes yet. -/
def empty : Running H := ⟨H.start, [], 0⟩

/-- Takes in some more bytes. -/
def update (r : Running H) (data : Bytes) : Running H :=
  let (chain, pending) := H.absorb r.chain (r.pending ++ data)
  ⟨chain, pending, r.total + data.length⟩

/-- The digest of all bytes taken in. -/
def finish (r : Running H) : Bytes :=
  H.output (H.absorb r.chain (r.pending ++ H.padding r.total)).1

end Running

/-- One bit, zeros, and the message's length in a field of `field.length` bytes, up to a multiple of
the block size. -/
def lengthPadding (blockSize total : Nat) (field : Bytes) : Bytes :=
  let used := (total + 1 + field.length) % blockSize
  0x80 :: (List.replicate ((blockSize - used) % blockSize) 0 ++ field)

end BlockHash

end Cryptoki
