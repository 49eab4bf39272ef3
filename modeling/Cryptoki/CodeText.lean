/-!
# `Cryptoki.CodeText` — code numbers in hexadecimal

Mechanisms and return codes without a name of their own are shown by number.

## Contents
- `codeText` — `0x` and at least eight upper-case digits.
-/

namespace Cryptoki

/-- A number as `0x` and at least eight upper-case hexadecimal digits. -/
def codeText (n : Nat) : String :=
  let digits := (Nat.toDigits 16 n).map Char.toUpper
  "0x" ++ String.ofList (List.replicate (8 - digits.length) '0' ++ digits)

end Cryptoki
