/-!
# `Cryptoki.Digest.Rotation` — words with their bits rotated

## Contents
- `rotateLeft32`, `rotateRight32` — words of thirty-two bits.
- `rotateRight64` — words of sixty-four bits.
-/

namespace Cryptoki

/-- A word of thirty-two bits rotated left by `n` bits. -/
def rotateLeft32 (x n : UInt32) : UInt32 := (x <<< n) ||| (x >>> (32 - n))

/-- A word of thirty-two bits rotated right by `n` bits. -/
def rotateRight32 (x n : UInt32) : UInt32 := (x >>> n) ||| (x <<< (32 - n))

/-- A word of sixty-four bits rotated right by `n` bits. -/
def rotateRight64 (x n : UInt64) : UInt64 := (x >>> n) ||| (x <<< (64 - n))

end Cryptoki
