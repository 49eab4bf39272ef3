import Cryptoki.BlockPadding
import Cryptoki.DigestInfo
import Cryptoki.EngineError

/-!
# `Cryptoki.KeyAcceptance` — the keys an algorithm accepts

A key is checked before a session is used for it: its family and half first, then its size against
what the token supports, and for RSA against what a padded block has to hold.

## Contents
- `Scheme.acceptKey` — family and half.
- `Scheme.acceptSize` — size, with `Scheme.acceptBounds` and `Scheme.acceptHeadroom` as its parts.
-/

namespace Cryptoki

/-- The largest DSA key for SHA-1 digests made on this side. -/
def dsaSha1MaxBits : Nat := 1024

namespace Scheme

variable (scheme : Scheme)

/-- The key has the algorithm's family and is the half that the mode works with. -/
def acceptKey (key : Key) (mode : OperationMode) : Except KeyFault Unit :=
  if key.family ≠ scheme.family then
    .error (.wrongFamily key.family scheme.algorithm)
  else if key.half ≠ mode.half then .error (.wrongHalf mode)
  else .ok ()

/-- The largest key for an algorithm on a token that supports keys up to `max`. -/
def maxKeyBits (max : Option Nat) : Option Nat :=
  if scheme.mechanism = .dsa ∧ scheme.algorithm = .sha1WithDsa then max.map (min · dsaSha1MaxBits)
  else max

/-- The size of the key is one that the token supports. -/
def acceptBounds (key : Key) (sizes : KeySizeRange) : Except KeyFault Unit :=
  match sizes.minKeyBits.filter (key.bits < ·) with
  | some min => .error (.tooFewBits key.family min)
  | none =>
    match (scheme.maxKeyBits sizes.maxKeyBits).filter (· < key.bits) with
    | some max => .error (.tooManyBits key.family max)
    | none => .ok ()

/-- A padded block of the size of an RSA key holds the algorithm's digest. -/
def acceptHeadroom (key : Key) : Except KeyFault Unit :=
  match BlockPadding.ofBits key.bits with
  | .error cause => .error (.unpaddable cause)
  | .ok padding =>
    match scheme.algorithm.digest with
    | none => .ok ()
    | some digest =>
      match DigestInfo.announcedLength digest with
      | .error cause => .error (.unknownDemand cause)
      | .ok length => if length ≤ padding.capacity then .ok () else .error .tooShortForDigest

/-- The size of the key suits the token, as far as the token tells, and the digest. -/
def acceptSize (key : Key) (sizes : Option KeySizeRange) : Except KeyFault Unit := do
  if let some sizes := sizes then scheme.acceptBounds key sizes
  if key.family = .rsa then scheme.acceptHeadroom key

end Scheme

end Cryptoki
