/-!
# `Cryptoki.Bytes` — byte strings and the numbers they write

Every key, digest, block and signature of the library is a byte string, and most of them write a
natural number, most significant byte first.

## Contents
- `Bytes.toNat`, `Bytes.ofNat`, `Bytes.ofNatWidth` — reading and writing such numbers.
- `Bytes.stripZeros`, `Bytes.magnitude`, `Bytes.justifyRight` — leading zeros removed and added.
- `Bytes.bitLength` — the size in bits of the number a byte string writes.
- `SizedBytes` — byte strings of one length.
- `Bytes.toHex`, `Bytes.ofHex?` — hexadecimal text, two digits a byte.
-/

namespace Cryptoki

/-- A byte string, first byte first. -/
abbrev Bytes := List UInt8

/-- Byte strings of `n` bytes. -/
abbrev SizedBytes (n : Nat) := { b : Bytes // b.length = n }

namespace Bytes

/-! ## Big-endian numbers -/

/-- The number a byte string writes, most significant byte first. -/
def toNat (b : Bytes) : Nat := b.foldl (fun n x => n * 256 + x.toNat) 0

@[simp] theorem toNat_nil : toNat [] = 0 := rfl

/-- The low `width` bytes of a number, most significant first. -/
def ofNatWidth : Nat → Nat → Bytes
  | 0, _ => []
  | width + 1, n => UInt8.ofNat (n >>> (8 * width)) :: ofNatWidth width n

@[simp] theorem length_ofNatWidth (width n : Nat) : (ofNatWidth width n).length = width := by
  induction width with
  | zero => rfl
  | succ width ih => simp [ofNatWidth, ih]

/-- The bits a number needs: zero needs none. -/
def natBits (n : Nat) : Nat := if n = 0 then 0 else n.log2 + 1

/-- The shortest byte string that writes `n`; zero is written by no byte at all. -/
def ofNat (n : Nat) : Bytes := ofNatWidth ((natBits n + 7) / 8) n

/-! ## Leading zeros -/

/-- The byte string without its leading zero bytes. -/
def stripZeros (b : Bytes) : Bytes := b.dropWhile (· == 0)

/-- The number without leading zero bytes, zero itself being one zero byte. -/
def magnitude (b : Bytes) : Bytes :=
  match stripZeros b with
  | [] => [0]
  | x :: rest => x :: rest

/-- The byte string at the right end of a field of `width` bytes. -/
def justifyRight (width : Nat) (b : Bytes) : Bytes := List.replicate (width - b.length) 0 ++ b

theorem length_justifyRight {width : Nat} {b : Bytes} (h : b.length ≤ width) :
    (justifyRight width b).length = width := by
  simp only [justifyRight, List.length_append, List.length_replicate]; omega

/-- The size in bits of the number a byte string writes: eight for every byte below the first that
is not zero, and the position of the top bit in that one. -/
def bitLength (b : Bytes) : Nat :=
  match stripZeros b with
  | [] => 0
  | x :: rest => 8 * rest.length + natBits x.toNat

/-- The low `width` bytes of a number, as a byte string of that length. -/
def sizedOfNat (width n : Nat) : SizedBytes width := ⟨ofNatWidth width n, length_ofNatWidth width n⟩

/-! ## Hexadecimal text -/

/-- The sixteen digits, in order of value. -/
def hexDigits : List Char := "0123456789abcdef".toList

/-- The digit of a value below sixteen. -/
def hexDigit (n : Nat) : Char := hexDigits.getD n '0'

/-- The value of a digit, in either letter case. -/
def hexValue? (c : Char) : Option Nat := hexDigits.findIdx? (· == c.toLower)

/-- The digits of a byte string, two for each byte. -/
def hexChars (b : Bytes) : List Char :=
  b.flatMap fun x => [hexDigit (x.toNat / 16), hexDigit (x.toNat % 16)]

/-- Lower-case hexadecimal text. -/
def toHex (b : Bytes) : String := String.ofList (hexChars b)

/-- The bytes that pairs of digits write; a lone digit or any other character fails. -/
def ofHexChars? (cs : List Char) : Option Bytes := go [] cs
where
  /-- The bytes so far are held in reverse. -/
  go (acc : Bytes) : List Char → Option Bytes
  | [] => some acc.reverse
  | [_] => none
  | hi :: lo :: rest =>
    match hexValue? hi, hexValue? lo with
    | some h, some l => go (UInt8.ofNat (h * 16 + l) :: acc) rest
    | _, _ => none

/-- The bytes of a hexadecimal text. -/
def ofHex? (s : String) : Option Bytes := ofHexChars? s.toList

end Bytes

end Cryptoki
