import Cryptoki.Bytes

/-!
# `Cryptoki.Key` — sessions, handles and the keys they reach

A key lives on the token. Outside it is known by its handle, by which half of its pair it is, and by
the public numbers that give its size.

## Contents
- `SessionId`, `ObjectHandle` — what the token calls its sessions and objects.
- `OperationMode` — signing or verifying.
- `KeyFamily`, `KeyHalf`, `KeyParameters`, `Key` — the description of a key.
- `Key.bits`, `Key.bytes` — its size.
- `KeySizeRange` — the key sizes a token says it supports.
-/

namespace Cryptoki

/-- A session of a token, by its number. -/
structure SessionId where
  value : Nat
deriving DecidableEq, Repr

/-- How a session is shown. -/
def SessionId.text (s : SessionId) : String := "session#" ++ toString s.value

/-- An object on a token, by its number. -/
structure ObjectHandle where
  value : Nat
deriving DecidableEq, Repr

/-- How an object is shown. -/
def ObjectHandle.text (h : ObjectHandle) : String := "object#" ++ toString h.value

/-- What an operation is for. -/
inductive OperationMode
  | sign
  | verify
deriving DecidableEq, Repr

/-- The mode in words. -/
def OperationMode.name : OperationMode → String
  | .sign => "sign"
  | .verify => "verify"

/-- The family of a key. -/
inductive KeyFamily
  | rsa
  | dsa
  | ec
deriving DecidableEq, Repr

namespace KeyFamily

/-- Every family. -/
def all : List KeyFamily := [rsa, dsa, ec]

/-- The family in words. -/
def name : KeyFamily → String
  | rsa => "RSA"
  | dsa => "DSA"
  | ec => "EC"

end KeyFamily

/-- A half of a key pair. -/
inductive KeyHalf
  | publicKey
  | privateKey
deriving DecidableEq, Repr

namespace KeyHalf

/-- Both halves. -/
def all : List KeyHalf := [publicKey, privateKey]

/-- The half in words. -/
def name : KeyHalf → String
  | publicKey => "public"
  | privateKey => "private"

end KeyHalf

/-- The half of a key pair that a mode works with. -/
def OperationMode.half : OperationMode → KeyHalf
  | .sign => .privateKey
  | .verify => .publicKey

/-- The public numbers that give a key's size. -/
inductive KeyParameters
  /-- The RSA modulus, as bytes. -/
  | rsa (modulus : Bytes)
  /-- The DSA prime, as bytes. -/
  | dsa (prime : Bytes)
  /-- The bits of an elliptic curve's field. -/
  | ec (fieldBits : Nat)
deriving DecidableEq, Repr

namespace KeyParameters

/-- The family the numbers belong to. -/
def family : KeyParameters → KeyFamily
  | rsa _ => .rsa
  | dsa _ => .dsa
  | ec _ => .ec

/-- The modulus or the prime. -/
def magnitude? : KeyParameters → Option Bytes
  | rsa modulus => some modulus
  | dsa prime => some prime
  | ec _ => none

/-- The size in bits: that of the modulus, of the prime or of the field. -/
def bits : KeyParameters → Nat
  | rsa modulus => Bytes.bitLength modulus
  | dsa prime => Bytes.bitLength prime
  | ec fieldBits => fieldBits

end KeyParameters

/-- A key on a token. -/
structure Key where
  handle : ObjectHandle
  half : KeyHalf
  params : KeyParameters
deriving DecidableEq, Repr

namespace Key

variable (k : Key)

/-- The family of the key. -/
def family : KeyFamily := k.params.family

/-- The size of the key in bits. -/
def bits : Nat := k.params.bits

/-- The size of the key in whole bytes. -/
def bytes : Nat := (k.bits + 7) / 8

end Key

/-- The key sizes, in bits, that a token supports for a mechanism; a missing end is open. -/
structure KeySizeRange where
  minKeyBits : Option Nat
  maxKeyBits : Option Nat
deriving DecidableEq, Repr

/-- Sizes with both ends given. -/
def KeySizeRange.bounded (min max : Nat) : KeySizeRange := ⟨some min, some max⟩

end Cryptoki
