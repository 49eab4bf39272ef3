import Cryptoki.Digest.BlockHash
import Cryptoki.Digest.Rotation

/-!
# `Cryptoki.Digest.SHA1` — the SHA-1 message digest

## Contents
- `SHA1.schedule` — the eighty words a block is expanded to.
- `SHA1.step` — one step on the five words of the chaining value.
- `SHA1.blockHash` — the algorithm.
-/

namespace Cryptoki.SHA1

/-- The word made from the sixteen before it. -/
def nextWord (window : List UInt32) : UInt32 :=
  rotateLeft32
    (window.getD 13 0 ^^^ window.getD 8 0 ^^^ window.getD 2 0 ^^^ window.getD 0 0) 1

/-- The first `n` words that follow from a window of sixteen, the window's own included. -/
def schedule : Nat → List UInt32 → List UInt32
  | 0, _ => []
  | _, [] => []
  | n + 1, w :: rest => w :: schedule n (rest ++ [nextWord (w :: rest)])

/-- The sixteen words of a block. -/
def wordsOfBlock (block : Bytes) : List UInt32 :=
  (List.range 16).map fun i => UInt32.ofNat (Bytes.toNat ((block.drop (4 * i)).take 4))

/-- The five words of the chaining value. -/
structure Chain where
  a : UInt32
  b : UInt32
  c : UInt32
  d : UInt32
  e : UInt32

/-- Step `i` with its word of the schedule. -/
def step (v : Chain) (iw : Nat × UInt32) : Chain :=
  let (i, w) := iw
  let (f, k) : UInt32 × UInt32 :=
    match i / 20 with
    | 0 => ((v.b &&& v.c) ||| (~~~v.b &&& v.d), 0x5a827999)
    | 1 => (v.b ^^^ v.c ^^^ v.d, 0x6ed9eba1)
    | 2 => ((v.b &&& v.c) ||| (v.b &&& v.d) ||| (v.c &&& v.d), 0x8f1bbcdc)
    | _ => (v.b ^^^ v.c ^^^ v.d, 0xca62c1d6)
  ⟨rotateLeft32 v.a 5 + f + v.e + k + w, v.a, rotateLeft32 v.b 30, v.c, v.d⟩

/-- The four bytes of a word, the most significant first. -/
def bytesOfWord (x : UInt32) : Bytes := Bytes.ofNatWidth 4 x.toNat

/-- The bytes in a block. -/
def blockSize : Nat := 64

theorem blockSize_pos : 0 < blockSize := by decide

/-- SHA-1: the message's length in bits ends the padding. -/
def blockHash : BlockHash where
  Chain := Chain
  blockSize := blockSize
  blockSize_pos := blockSize_pos
  start := ⟨0x67452301, 0xefcdab89, 0x98badcfe, 0x10325476, 0xc3d2e1f0⟩
  compress v block :=
    let words := schedule 80 (wordsOfBlock block)
    let w := ((List.range 80).zip words).foldl step v
    ⟨v.a + w.a, v.b + w.b, v.c + w.c, v.d + w.d, v.e + w.e⟩
  padding total := BlockHash.lengthPadding blockSize total (Bytes.ofNatWidth 8 (8 * total))
  output v :=
    bytesOfWord v.a ++ bytesOfWord v.b ++ bytesOfWord v.c ++ bytesOfWord v.d ++ bytesOfWord v.e

end Cryptoki.SHA1
