import Cryptoki.Digest.BlockHash

/-!
# `Cryptoki.Digest.Hasher` — hash functions, as those who use them see them

A hash function takes in a message piece by piece and gives the digest of all of it when it is asked;
then, or when it is told to, it starts over. How it computes is its own affair.

## Contents
- `Hasher` — what can be done with a hash function.
- `BlockHash.hasher` — a block hash, used like that.
-/

namespace Cryptoki

/-- A hash function. -/
structure Hasher where
  /-- What was taken in, in whatever form. -/
  State : Type
  /-- Nothing yet. -/
  start : State
  /-- Takes in some more bytes. -/
  update : State → Bytes → State
  /-- Forgets all bytes taken in. -/
  reset : State → State
  /-- The digest of all bytes taken in, and the state after starting over. -/
  finish : State → Bytes × State
  /-- The digest of a whole message, in one step. -/
  hash : Bytes → Bytes

/-- A block hash, used piece by piece. -/
def BlockHash.hasher (H : BlockHash) : Hasher where
  State := BlockHash.Running H
  start := .empty
  update := .update
  reset _ := .empty
  finish r := (r.finish, .empty)
  hash := H.hash

end Cryptoki
