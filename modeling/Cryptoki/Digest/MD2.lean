import Cryptoki.Digest.BlockHash

/-!
# `Cryptoki.Digest.MD2` — the MD2 message digest

Bytes are mixed through a fixed permutation of the 256 byte values. The chaining value is the
sixteen bytes of state together with a running checksum of the message; the checksum is folded in
as one more block at the end.

## Contents
- `MD2.permutation` — the substitution table, made from the digits of pi.
- `MD2.mix`, `MD2.addChecksum` — a block folded into the state and into the checksum.
- `MD2.blockHash` — the algorithm.
-/

namespace Cryptoki.MD2

/-- The substitution table, sixteen bytes to a row. -/
def permutation : Array Nat := #[
  0x292e43c9a2d87c013d3654a1ecf00613, 0x62a705f3c0c7738c98932bd9bc4c82ca,
  0x1e9b573cfdd4e01667426f188a17e512, 0xbe4ec4d6da9ede49a0fbf58ebb2fee7a,
  0xa968799115b2073f94c210890b225f21, 0x807f5d9a5a903227353ecce7bff79703,
  0xff1930b348a5b5d1d75e922aac56aac6, 0x4fb838d296a47db676fc6be29c7404f1,
  0x459d705964718720865bcf65e62da802, 0x1b6025adaeb0b9f61c46616934407e0f,
  0x5547a323dd51af3ac35cf9cebac5ea26, 0x2c530d6e85288409d3dfcdf441814d52,
  0x6adc37c86cc1abfa24e17b080cbdb14a, 0x7888958be363e86de9cbd5fe3b001d39,
  0xf2efb70e6658d0e4a67772f8eb754b0a, 0x314450b48fed1f1adb998d339f118314]

/-- The table's entry for a byte. -/
def substitute (x : UInt8) : UInt8 :=
  UInt8.ofNat (permutation.getD (x.toNat / 16) 0 >>> (8 * (15 - x.toNat % 16)))

/-- One pass over the bytes: each is changed by the table's entry for the one before it. -/
def substitutePass : UInt8 → Bytes → UInt8 × Bytes
  | t, [] => (t, [])
  | t, x :: rest =>
    let y := x ^^^ substitute t
    let (t, rest) := substitutePass y rest
    (t, y :: rest)

/-- The eighteen passes over the state, numbered from `round`. -/
def substitutePasses : Nat → UInt8 → UInt8 → Bytes → Bytes
  | 0, _, _, bytes => bytes
  | passes + 1, round, t, bytes =>
    let (t, bytes) := substitutePass t bytes
    substitutePasses passes (round + 1) (t + round) bytes

/-- A block folded into the sixteen bytes of state. -/
def mix (state block : Bytes) : Bytes :=
  (substitutePasses 18 0 0 (state ++ block ++ List.zipWith (· ^^^ ·) block state)).take 16

/-- A block added to the checksum, byte by byte; `last` is the byte before. -/
def addChecksum : UInt8 → Bytes → Bytes → Bytes
  | last, c :: checksum, x :: block =>
    let y := c ^^^ substitute (x ^^^ last)
    y :: addChecksum y checksum block
  | _, _, _ => []

/-- The state and the checksum after some blocks. -/
structure Chain where
  /-- The state bytes. -/
  state : Bytes
  /-- The checksum bytes. -/
  checksum : Bytes

/-- The bytes in a block. -/
def blockSize : Nat := 16

theorem blockSize_pos : 0 < blockSize := by decide

/-- MD2: the padding counts its own bytes, and the checksum is the last block. -/
def blockHash : BlockHash where
  Chain := Chain
  blockSize := blockSize
  blockSize_pos := blockSize_pos
  start := ⟨List.replicate 16 0, List.replicate 16 0⟩
  compress c block :=
    ⟨mix c.state block, addChecksum (c.checksum.getLastD 0) c.checksum block⟩
  padding total := List.replicate (16 - total % 16) (UInt8.ofNat (16 - total % 16))
  output c := mix c.state c.checksum

end Cryptoki.MD2
