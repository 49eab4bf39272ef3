import Cryptoki.Digest.BlockHash
import Cryptoki.Digest.Rotation

/-!
# `Cryptoki.Digest.MD5` — the MD5 message digest

## Contents
- `MD5.sines`, `MD5.shifts` — the constants of the sixty-four steps.
- `MD5.step` — one step on the four words of the chaining value.
- `MD5.blockHash` — the algorithm.
-/

namespace Cryptoki.MD5

/-- A word from four bytes, the least significant first. -/
def wordOfBytes (b : Bytes) : UInt32 := UInt32.ofNat (Bytes.toNat b.reverse)

/-- The four bytes of a word, the least significant first. -/
def bytesOfWord (x : UInt32) : Bytes := (Bytes.ofNatWidth 4 x.toNat).reverse

/-- The first thirty-two bits of the fractional part of `|sin 1|`, `|sin 2|`, … -/
def sines : Array UInt32 := #[
  0xd76aa478, 0xe8c7b756, 0x242070db, 0xc1bdceee, 0xf57c0faf, 0x4787c62a, 0xa8304613, 0xfd469501,
  0x698098d8, 0x8b44f7af, 0xffff5bb1, 0x895cd7be, 0x6b901122, 0xfd987193, 0xa679438e, 0x49b40821,
  0xf61e2562, 0xc040b340, 0x265e5a51, 0xe9b6c7aa, 0xd62f105d, 0x02441453, 0xd8a1e681, 0xe7d3fbc8,
  0x21e1cde6, 0xc33707d6, 0xf4d50d87, 0x455a14ed, 0xa9e3e905, 0xfcefa3f8, 0x676f02d9, 0x8d2a4c8a,
  0xfffa3942, 0x8771f681, 0x6d9d6122, 0xfde5380c, 0xa4beea44, 0x4bdecfa9, 0xf6bb4b60, 0xbebfbc70,
  0x289b7ec6, 0xeaa127fa, 0xd4ef3085, 0x04881d05, 0xd9d4d039, 0xe6db99e5, 0x1fa27cf8, 0xc4ac5665,
  0xf4292244, 0x432aff97, 0xab9423a7, 0xfc93a039, 0x655b59c3, 0x8f0ccc92, 0xffeff47d, 0x85845dd1,
  0x6fa87e4f, 0xfe2ce6e0, 0xa3014314, 0x4e0811a1, 0xf7537e82, 0xbd3af235, 0x2ad7d2bb, 0xeb86d391]

/-- The rotation of step `i`: four amounts in turn, others in each quarter of the steps. -/
def shifts (i : Nat) : UInt32 :=
  let amounts : Array UInt32 :=
    match i / 16 with
    | 0 => #[7, 12, 17, 22]
    | 1 => #[5, 9, 14, 20]
    | 2 => #[4, 11, 16, 23]
    | _ => #[6, 10, 15, 21]
  amounts.getD (i % 4) 0

/-- The four words of the chaining value. -/
structure Chain where
  a : UInt32
  b : UInt32
  c : UInt32
  d : UInt32

/-- Step `i` on the words of the block. -/
def step (words : Array UInt32) (v : Chain) (i : Nat) : Chain :=
  let (f, g) :=
    match i / 16 with
    | 0 => ((v.b &&& v.c) ||| (~~~v.b &&& v.d), i)
    | 1 => ((v.d &&& v.b) ||| (~~~v.d &&& v.c), (5 * i + 1) % 16)
    | 2 => (v.b ^^^ v.c ^^^ v.d, (3 * i + 5) % 16)
    | _ => (v.c ^^^ (v.b ||| ~~~v.d), 7 * i % 16)
  let sum := v.a + f + sines.getD i 0 + words.getD g 0
  ⟨v.d, v.b + rotateLeft32 sum (shifts i), v.b, v.c⟩

/-- A block of sixty-four bytes as sixteen words. -/
def wordsOfBlock (block : Bytes) : Array UInt32 :=
  Array.ofFn (n := 16) fun i => wordOfBytes ((block.drop (4 * i.val)).take 4)

/-- The bytes in a block. -/
def blockSize : Nat := 64

theorem blockSize_pos : 0 < blockSize := by decide

/-- MD5: the message's length in bits ends the padding, least significant byte first. -/
def blockHash : BlockHash where
  Chain := Chain
  blockSize := blockSize
  blockSize_pos := blockSize_pos
  start := ⟨0x67452301, 0xefcdab89, 0x98badcfe, 0x10325476⟩
  compress v block :=
    let w := (List.range 64).foldl (step (wordsOfBlock block)) v
    ⟨v.a + w.a, v.b + w.b, v.c + w.c, v.d + w.d⟩
  padding total :=
    BlockHash.lengthPadding blockSize total (Bytes.ofNatWidth 8 (8 * total)).reverse
  output v := bytesOfWord v.a ++ bytesOfWord v.b ++ bytesOfWord v.c ++ bytesOfWord v.d

end Cryptoki.MD5
