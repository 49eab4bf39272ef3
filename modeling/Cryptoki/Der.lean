import Cryptoki.Bytes

/-!
# `Cryptoki.Der` — the distinguished encoding of tagged values

A value is written as its tag, the length of its content, and the content. The length takes the
fewest bytes that can write it, and an integer the fewest bytes of two's complement, so every value
has one encoding only; reading accepts that one and no other.

## Contents
- `Der.maxLength` — the largest length the encoding is used with.
- `Der.lengthOctets`, `Der.readLength` — lengths, written and read.
- `Der.tlv`, `Der.tlvLength`, `Der.readTlv` — tagged values, written, measured and read.
- `Der.naturalContent`, `Der.readNatural` — the content of a non-negative INTEGER.
- `Der.oidContent` — the content of an OBJECT IDENTIFIER.
-/

namespace Cryptoki.Der

/-- Lengths and whole encodings stay below `2 ^ 28`. -/
def maxLength : Nat := 0x0fffffff

/-- Why a value has no encoding. -/
inductive Error
  /-- The encoding would be longer than `maxLength`. -/
  | overflow
deriving DecidableEq, Repr

/-- The reason in words. -/
def Error.message : Error → String
  | .overflow => "integer overflow"

/-- An encoding, unless it is too long to be one. -/
def bounded (encoding : Bytes) : Except Error Bytes :=
  if encoding.length ≤ maxLength then .ok encoding else .error .overflow

/-! ## Lengths -/

/-- A length: one byte below 128, else the count of its bytes and the bytes. -/
def lengthOctets (n : Nat) : Bytes :=
  if n < 0x80 then [UInt8.ofNat n]
  else
    let digits := Bytes.ofNat n
    UInt8.ofNat (0x80 + digits.length) :: digits

/-- Reads a length off the front: one byte below 128, or up to four bytes where fewer would not
do. -/
def readLength : Bytes → Option (Nat × Bytes)
  | [] => none
  | first :: rest =>
    if first.toNat < 0x80 then some (first.toNat, rest)
    else
      let count := first.toNat - 0x80
      let digits := rest.take count
      let n := Bytes.toNat digits
      if 1 ≤ count ∧ count ≤ 4 ∧ digits.length = count ∧ digits.head? ≠ some 0 ∧ 0x80 ≤ n
          ∧ n ≤ maxLength then
        some (n, rest.drop count)
      else none

/-! ## Tagged values -/

/-- The tag of an INTEGER. -/
def integerTag : UInt8 := 0x02

/-- The tag of an OCTET STRING. -/
def octetStringTag : UInt8 := 0x04

/-- The tag of a NULL. -/
def nullTag : UInt8 := 0x05

/-- The tag of an OBJECT IDENTIFIER. -/
def oidTag : UInt8 := 0x06

/-- The tag of a SEQUENCE. -/
def sequenceTag : UInt8 := 0x30

/-- A tagged value. -/
def tlv (tag : UInt8) (content : Bytes) : Bytes := tag :: (lengthOctets content.length ++ content)

/-- The length of a tagged value with content of `n` bytes. -/
def tlvLength (n : Nat) : Nat := 1 + (lengthOctets n).length + n

theorem length_tlv (tag : UInt8) (content : Bytes) :
    (tlv tag content).length = tlvLength content.length := by
  simp only [tlv, tlvLength, List.length_cons, List.length_append]; omega

/-- Reads a value of the given tag off the front: its content and what follows it. -/
def readTlv (tag : UInt8) : Bytes → Option (Bytes × Bytes)
  | [] => none
  | first :: rest =>
    if first = tag then
      match readLength rest with
      | none => none
      | some (n, rest) =>
        let content := rest.take n
        if content.length = n then some (content, rest.drop n) else none
    else none

/-! ## Integers and object identifiers -/

/-- The content of a non-negative INTEGER, from the number without leading zeros: a zero byte comes
before a top bit that would make it negative. -/
def naturalContent (magnitude : Bytes) : Bytes :=
  match magnitude with
  | [] => [0]
  | first :: rest => if 0x80 ≤ first.toNat then 0 :: first :: rest else first :: rest

/-- Reads the content of an INTEGER that is not negative and has no byte to spare, as the number
without leading zeros. -/
def readNatural : Bytes → Option Bytes
  | [] => none
  | [x] => if x.toNat < 0x80 then some [x] else none
  | x :: y :: rest =>
    if x = 0 then if 0x80 ≤ y.toNat then some (y :: rest) else none
    else if x.toNat < 0x80 then some (x :: y :: rest)
    else none

/-- The digits of an arc to base 128 above the last one, each with its top bit set. -/
def oidArcHigh (n : Nat) : Bytes :=
  if n = 0 then [] else oidArcHigh (n / 128) ++ [UInt8.ofNat (0x80 + n % 128)]
decreasing_by omega

/-- An arc to base 128; the top bit of a byte tells that more follow. -/
def oidArc (n : Nat) : Bytes := oidArcHigh (n / 128) ++ [UInt8.ofNat (n % 128)]

/-- The content of an OBJECT IDENTIFIER; the first two arcs share a byte. -/
def oidContent : List Nat → Bytes
  | first :: second :: rest => oidArc (40 * first + second) ++ rest.flatMap oidArc
  | short => short.flatMap oidArc

end Cryptoki.Der
