import Cryptoki.Digest.Stream

/-!
# `Cryptoki.Hmac` — keyed hashing, and numbers drawn from it

## Contents
- `hmac` — the keyed hash of a message.
- `HmacGenerator` — bytes that look random and depend on a seed only.
-/

namespace Cryptoki

/-- The keyed hash of a message. A key longer than a block is hashed first. -/
def hmac (a : DigestAlgorithm) (key message : Bytes) : Bytes :=
  let blockSize := a.blockHash.blockSize
  let key := if blockSize < key.length then a.digest key else key
  let key := key ++ List.replicate (blockSize - key.length) 0
  a.digest (key.map (· ^^^ 0x5c) ++ a.digest (key.map (· ^^^ 0x36) ++ message))

/-- A generator of bytes from keyed SHA-256 hashes. -/
structure HmacGenerator where
  key : Bytes
  value : Bytes

namespace HmacGenerator

/-- Takes some bytes into the key and steps on. -/
def mix (g : HmacGenerator) (input : Bytes) : HmacGenerator :=
  let key := hmac .sha256 g.key (g.value ++ input)
  ⟨key, hmac .sha256 key g.value⟩

/-- The generator that depends on a seed only. -/
def ofSeed (seed : Bytes) : HmacGenerator :=
  let start : HmacGenerator := ⟨List.replicate 32 0, List.replicate 32 1⟩
  (start.mix (0 :: seed)).mix (1 :: seed)

/-- The next thirty-two bytes. -/
def next (g : HmacGenerator) : Bytes × HmacGenerator :=
  let value := hmac .sha256 g.key g.value
  (value, mix ⟨g.key, value⟩ [0])

end HmacGenerator

end Cryptoki
