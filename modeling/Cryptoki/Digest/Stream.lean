import Cryptoki.Digest.Algorithm
import Cryptoki.Digest.Hasher
import Cryptoki.Digest.MD2
import Cryptoki.Digest.MD5
import Cryptoki.Digest.SHA1
import Cryptoki.Digest.SHA2

/-!
# `Cryptoki.Digest.Stream` — digesting messages, whole or piece by piece

## Contents
- `DigestAlgorithm.blockHash`, `DigestAlgorithm.hasher` — the hash function of each algorithm.
- `DigestAlgorithm.digest` — the digest of a whole message.
- `DigestStream` — a digest in progress, with `update`, `finish` and `reset`, over any family of hash
  functions; `DigestStream.digestOf` — the digest of a whole message by way of it.
-/

namespace Cryptoki

/-- The block hash of an algorithm. -/
def DigestAlgorithm.blockHash : DigestAlgorithm → BlockHash
  | .md2 => MD2.blockHash
  | .md5 => MD5.blockHash
  | .sha1 => SHA1.blockHash
  | .sha224 => SHA2.sha224
  | .sha256 => SHA2.sha256
  | .sha384 => SHA2.sha384
  | .sha512 => SHA2.sha512

/-- The digest of a whole message. -/
def DigestAlgorithm.digest (a : DigestAlgorithm) (message : Bytes) : Bytes :=
  a.blockHash.hash message

/-- The hash function of an algorithm, as its standard has it. -/
def DigestAlgorithm.hasher (a : DigestAlgorithm) : Hasher := a.blockHash.hasher

/-- A digest in progress, by one of the hash functions that there are. -/
structure DigestStream (hashers : DigestAlgorithm → Hasher := DigestAlgorithm.hasher) where
  /-- The algorithm, fixed for the value's life. -/
  algorithm : DigestAlgorithm
  /-- What was taken in since the start. -/
  running : (hashers algorithm).State

namespace DigestStream

variable {hashers : DigestAlgorithm → Hasher}

/-- A digest of no bytes yet. -/
def new (a : DigestAlgorithm) : DigestStream hashers := ⟨a, (hashers a).start⟩

/-- Takes in some more bytes. -/
def update (md : DigestStream hashers) (data : Bytes) : DigestStream hashers :=
  ⟨md.algorithm, (hashers md.algorithm).update md.running data⟩

/-- Forgets all bytes taken in. -/
def reset (md : DigestStream hashers) : DigestStream hashers :=
  ⟨md.algorithm, (hashers md.algorithm).reset md.running⟩

/-- The digest of all bytes taken in; the value starts over. -/
def finish (md : DigestStream hashers) : Bytes × DigestStream hashers :=
  let (digest, running) := (hashers md.algorithm).finish md.running
  (digest, ⟨md.algorithm, running⟩)

/-- The digest of a message that is there as a whole. -/
def digestOf (hashers : DigestAlgorithm → Hasher) (a : DigestAlgorithm) (message : Bytes) : Bytes :=
  ((new a : DigestStream hashers).update message).finish.1

end DigestStream

end Cryptoki
