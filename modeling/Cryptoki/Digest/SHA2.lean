import Cryptoki.Digest.BlockHash
import Cryptoki.Digest.Rotation

/-!
# `Cryptoki.Digest.SHA2` — the SHA-2 message digests

SHA-224 and SHA-256 work on words of thirty-two bits, SHA-384 and SHA-512 on words of sixty-four.
The two families differ in their word functions and constants only, so one definition serves both.

## Contents
- `SHA2.Family` — the words, word functions and constants of a family.
- `SHA2.schedule`, `SHA2.step`, `SHA2.compress` — a block folded into eight words.
- `SHA2.words32`, `SHA2.words64` — the two families.
- `SHA2.sha224`, `SHA2.sha256`, `SHA2.sha384`, `SHA2.sha512` — the algorithms.
-/

namespace Cryptoki.SHA2

/-- What tells one family from the other. -/
structure Family (W : Type) where
  /-- The bytes in a word. -/
  width : Nat
  ofNat : Nat → W
  toNat : W → Nat
  bigSigma0 : W → W
  bigSigma1 : W → W
  smallSigma0 : W → W
  smallSigma1 : W → W
  /-- One constant for each step. -/
  constants : List W

/-- The eight words of the chaining value. -/
structure Chain (W : Type) where
  a : W
  b : W
  c : W
  d : W
  e : W
  f : W
  g : W
  h : W

section

variable {W : Type} [Inhabited W] [Add W] [AndOp W] [XorOp W] [Complement W] (F : Family W)

/-- The word made from the sixteen before it. -/
def nextWord (window : List W) : W :=
  F.smallSigma1 (window.getD 14 default) + window.getD 9 default
    + F.smallSigma0 (window.getD 1 default) + window.getD 0 default

/-- The first `n` words that follow from a window of sixteen, the window's own included. -/
def schedule : Nat → List W → List W
  | 0, _ => []
  | _, [] => []
  | n + 1, w :: rest => w :: schedule n (rest ++ [nextWord F (w :: rest)])

/-- The sixteen words of a block. -/
def wordsOfBlock (block : Bytes) : List W :=
  (List.range 16).map fun i => F.ofNat (Bytes.toNat ((block.drop (F.width * i)).take F.width))

/-- One step with its constant and its word of the schedule. -/
def step (v : Chain W) (kw : W × W) : Chain W :=
  let choice := (v.e &&& v.f) ^^^ (~~~v.e &&& v.g)
  let majority := (v.a &&& v.b) ^^^ (v.a &&& v.c) ^^^ (v.b &&& v.c)
  let t1 := v.h + F.bigSigma1 v.e + choice + kw.1 + kw.2
  let t2 := F.bigSigma0 v.a + majority
  ⟨t1 + t2, v.a, v.b, v.c, v.d + t1, v.e, v.f, v.g⟩

/-- A block folded into the chaining value. -/
def compress (v : Chain W) (block : Bytes) : Chain W :=
  let words := schedule F F.constants.length (wordsOfBlock F block)
  let w := (F.constants.zip words).foldl (step F) v
  ⟨v.a + w.a, v.b + w.b, v.c + w.c, v.d + w.d, v.e + w.e, v.f + w.f, v.g + w.g, v.h + w.h⟩

/-- The words of the chaining value, first word first. -/
def output (v : Chain W) : Bytes :=
  [v.a, v.b, v.c, v.d, v.e, v.f, v.g, v.h].flatMap fun w => Bytes.ofNatWidth F.width (F.toNat w)

end

/-! ## Words of thirty-two bits -/

/-- The family of SHA-224 and SHA-256. -/
def words32 : Family UInt32 where
  width := 4
  ofNat := UInt32.ofNat
  toNat := UInt32.toNat
  bigSigma0 x := rotateRight32 x 2 ^^^ rotateRight32 x 13 ^^^ rotateRight32 x 22
  bigSigma1 x := rotateRight32 x 6 ^^^ rotateRight32 x 11 ^^^ rotateRight32 x 25
  smallSigma0 x := rotateRight32 x 7 ^^^ rotateRight32 x 18 ^^^ (x >>> 3)
  smallSigma1 x := rotateRight32 x 17 ^^^ rotateRight32 x 19 ^^^ (x >>> 10)
  constants := [
    0x428a2f98, 0x71374491, 0xb5c0fbcf, 0xe9b5dba5, 0x3956c25b, 0x59f111f1, 0x923f82a4, 0xab1c5ed5,
    0xd807aa98, 0x12835b01, 0x243185be, 0x550c7dc3, 0x72be5d74, 0x80deb1fe, 0x9bdc06a7, 0xc19bf174,
    0xe49b69c1, 0xefbe4786, 0x0fc19dc6, 0x240ca1cc, 0x2de92c6f, 0x4a7484aa, 0x5cb0a9dc, 0x76f988da,
    0x983e5152, 0xa831c66d, 0xb00327c8, 0xbf597fc7, 0xc6e00bf3, 0xd5a79147, 0x06ca6351, 0x14292967,
    0x27b70a85, 0x2e1b2138, 0x4d2c6dfc, 0x53380d13, 0x650a7354, 0x766a0abb, 0x81c2c92e, 0x92722c85,
    0xa2bfe8a1, 0xa81a664b, 0xc24b8b70, 0xc76c51a3, 0xd192e819, 0xd6990624, 0xf40e3585, 0x106aa070,
    0x19a4c116, 0x1e376c08, 0x2748774c, 0x34b0bcb5, 0x391c0cb3, 0x4ed8aa4a, 0x5b9cca4f, 0x682e6ff3,
    0x748f82ee, 0x78a5636f, 0x84c87814, 0x8cc70208, 0x90befffa, 0xa4506ceb, 0xbef9a3f7, 0xc67178f2]

/-- The bytes in a block of sixteen such words. -/
def blockSize32 : Nat := 64

theorem blockSize32_pos : 0 < blockSize32 := by decide

/-- The digest of the family with a start value of its own, cut to `length` bytes. -/
def blockHash32 (start : Chain UInt32) (length : Nat) : BlockHash where
  Chain := Chain UInt32
  blockSize := blockSize32
  blockSize_pos := blockSize32_pos
  start := start
  compress := compress words32
  padding total := BlockHash.lengthPadding blockSize32 total (Bytes.ofNatWidth 8 (8 * total))
  output v := (output words32 v).take length

/-- SHA-224. -/
def sha224 : BlockHash :=
  blockHash32
    ⟨0xc1059ed8, 0x367cd507, 0x3070dd17, 0xf70e5939, 0xffc00b31, 0x68581511, 0x64f98fa7,
      0xbefa4fa4⟩ 28

/-- SHA-256. -/
def sha256 : BlockHash :=
  blockHash32
    ⟨0x6a09e667, 0xbb67ae85, 0x3c6ef372, 0xa54ff53a, 0x510e527f, 0x9b05688c, 0x1f83d9ab,
      0x5be0cd19⟩ 32

/-! ## Words of sixty-four bits -/

/-- The family of SHA-384 and SHA-512. -/
def words64 : Family UInt64 where
  width := 8
  ofNat := UInt64.ofNat
  toNat := UInt64.toNat
  bigSigma0 x := rotateRight64 x 28 ^^^ rotateRight64 x 34 ^^^ rotateRight64 x 39
  bigSigma1 x := rotateRight64 x 14 ^^^ rotateRight64 x 18 ^^^ rotateRight64 x 41
  smallSigma0 x := rotateRight64 x 1 ^^^ rotateRight64 x 8 ^^^ (x >>> 7)
  smallSigma1 x := rotateRight64 x 19 ^^^ rotateRight64 x 61 ^^^ (x >>> 6)
  constants := [
    0x428a2f98d728ae22, 0x7137449123ef65cd, 0xb5c0fbcfec4d3b2f, 0xe9b5dba58189dbbc,
    0x3956c25bf348b538, 0x59f111f1b605d019, 0x923f82a4af194f9b, 0xab1c5ed5da6d8118,
    0xd807aa98a3030242, 0x12835b0145706fbe, 0x243185be4ee4b28c, 0x550c7dc3d5ffb4e2,
    0x72be5d74f27b896f, 0x80deb1fe3b1696b1, 0x9bdc06a725c71235, 0xc19bf174cf692694,
    0xe49b69c19ef14ad2, 0xefbe4786384f25e3, 0x0fc19dc68b8cd5b5, 0x240ca1cc77ac9c65,
    0x2de92c6f592b0275, 0x4a7484aa6ea6e483, 0x5cb0a9dcbd41fbd4, 0x76f988da831153b5,
    0x983e5152ee66dfab, 0xa831c66d2db43210, 0xb00327c898fb213f, 0xbf597fc7beef0ee4,
    0xc6e00bf33da88fc2, 0xd5a79147930aa725, 0x06ca6351e003826f, 0x142929670a0e6e70,
    0x27b70a8546d22ffc, 0x2e1b21385c26c926, 0x4d2c6dfc5ac42aed, 0x53380d139d95b3df,
    0x650a73548baf63de, 0x766a0abb3c77b2a8, 0x81c2c92e47edaee6, 0x92722c851482353b,
    0xa2bfe8a14cf10364, 0xa81a664bbc423001, 0xc24b8b70d0f89791, 0xc76c51a30654be30,
    0xd192e819d6ef5218, 0xd69906245565a910, 0xf40e35855771202a, 0x106aa07032bbd1b8,
    0x19a4c116b8d2d0c8, 0x1e376c085141ab53, 0x2748774cdf8eeb99, 0x34b0bcb5e19b48a8,
    0x391c0cb3c5c95a63, 0x4ed8aa4ae3418acb, 0x5b9cca4f7763e373, 0x682e6ff3d6b2b8a3,
    0x748f82ee5defb2fc, 0x78a5636f43172f60, 0x84c87814a1f0ab72, 0x8cc702081a6439ec,
    0x90befffa23631e28, 0xa4506cebde82bde9, 0xbef9a3f7b2c67915, 0xc67178f2e372532b,
    0xca273eceea26619c, 0xd186b8c721c0c207, 0xeada7dd6cde0eb1e, 0xf57d4f7fee6ed178,
    0x06f067aa72176fba, 0x0a637dc5a2c898a6, 0x113f9804bef90dae, 0x1b710b35131c471b,
    0x28db77f523047d84, 0x32caab7b40c72493, 0x3c9ebe0a15c9bebc, 0x431d67c49c100d4c,
    0x4cc5d4becb3e42b6, 0x597f299cfc657e2a, 0x5fcb6fab3ad6faec, 0x6c44198c4a475817]

/-- The bytes in a block of sixteen such words. -/
def blockSize64 : Nat := 128

theorem blockSize64_pos : 0 < blockSize64 := by decide

/-- The digest of the family with a start value of its own, cut to `length` bytes. -/
def blockHash64 (start : Chain UInt64) (length : Nat) : BlockHash where
  Chain := Chain UInt64
  blockSize := blockSize64
  blockSize_pos := blockSize64_pos
  start := start
  compress := compress words64
  padding total := BlockHash.lengthPadding blockSize64 total (Bytes.ofNatWidth 16 (8 * total))
  output v := (output words64 v).take length

/-- SHA-384. -/
def sha384 : BlockHash :=
  blockHash64
    ⟨0xcbbb9d5dc1059ed8, 0x629a292a367cd507, 0x9159015a3070dd17, 0x152fecd8f70e5939,
      0x67332667ffc00b31, 0x8eb44a8768581511, 0xdb0c2e0d64f98fa7, 0x47b5481dbefa4fa4⟩ 48

/-- SHA-512. -/
def sha512 : BlockHash :=
  blockHash64
    ⟨0x6a09e667f3bcc908, 0xbb67ae8584caa73b, 0x3c6ef372fe94f82b, 0xa54ff53a5f1d36f1,
      0x510e527fade682d1, 0x9b05688c2b3e6c1f, 0x1f83d9abfb41bd6b, 0x5be0cd19137e2179⟩ 64

end Cryptoki.SHA2
