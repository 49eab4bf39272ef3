import Cryptoki.EncodingError

/-!
# `Cryptoki.BlockPadding` — padding of block type 1

A payload is brought to the size of an RSA modulus: `00 01`, bytes `FF` to fill, `00`, the payload.
At least eight fill bytes are required, so a block of `n` bytes holds `n - 11` bytes of payload.

## Contents
- `BlockPadding` — a block size, known to be large enough.
- `BlockPadding.new`, `BlockPadding.ofBits` — from a size in bytes or in bits.
- `BlockPadding.pad`, `BlockPadding.unpad` — padding put on and taken off.
-/

namespace Cryptoki

/-- The bytes of a padded block that are not payload, with the least fill. -/
def paddingOverhead : Nat := 11

/-- Padding to blocks of `size` bytes. -/
structure BlockPadding where
  /-- The bytes in a block. -/
  size : Nat
  min_le_size : minPaddedSize ≤ size
deriving DecidableEq, Repr

namespace BlockPadding

/-- Padding to blocks of the given size, if that is not too small. -/
def new (size : Nat) : Except EncodingError BlockPadding :=
  if h : minPaddedSize ≤ size then .ok ⟨size, h⟩ else .error (.paddedSizeTooSmall size)

/-- Padding to the size of a modulus of `bits` bits. -/
def ofBits (bits : Nat) : Except EncodingError BlockPadding := new ((bits + 7) / 8)

/-- The block of `size` bytes that holds a payload. -/
def block (size : Nat) (data : Bytes) : Bytes :=
  0x00 :: 0x01 :: (List.replicate (size - 3 - data.length) 0xff ++ 0x00 :: data)

variable (p : BlockPadding)

/-- The largest payload that fits. -/
def capacity : Nat := p.size - paddingOverhead

/-- A payload brought to the size of a block. -/
def pad (data : Bytes) : Except EncodingError Bytes :=
  if data.length ≤ p.capacity then .ok (block p.size data)
  else .error (.dataTooLong data.length p.capacity)

/-- The payload after the fill and the zero that ends it, if both are there. -/
def afterFill (body : Bytes) : Option Bytes :=
  let fill := body.takeWhile (· == 0xff)
  match body.drop fill.length with
  | 0 :: data => if paddingOverhead - 3 ≤ fill.length then some data else none
  | _ => none

/-- The payload of a block. -/
def unpad (block : Bytes) : Except EncodingError Bytes :=
  if block.length = p.size then
    match block with
    | 0 :: 1 :: body =>
      match afterFill body with
      | some data => .ok data
      | none => .error .invalidPadding
    | _ => .error .invalidPadding
  else .error .invalidPadding

end BlockPadding

end Cryptoki
