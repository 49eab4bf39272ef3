import Cryptoki.Token

/-!
# `Cryptoki.Token.Recorded` — tokens that remember what they were asked

A token answers as it would without the log, whatever the log is kept for.

## Contents
- `Token.Event`, `Logged` — a call with its answer, and a token with all of them.
- `Logged.calls`, `Recorded` — the calls alone, and a token that is asked for these.
-/

namespace Cryptoki

/-- A call, and what the token answered. -/
structure Token.Event where
  call : Call
  result : Except ReturnCode call.Result

/-- A token that remembers its answers. -/
structure Logged (τ : Type) where
  token : τ
  /-- The calls with their answers, the last one first. -/
  log : List Token.Event

/-- A token that is asked for its calls. -/
abbrev Recorded := Logged

namespace Logged

variable {τ : Type}

/-- The token with an empty log. -/
def start (token : τ) : Logged τ := ⟨token, []⟩

/-- The calls so far, oldest first. -/
def calls (t : Logged τ) : List Call := (t.log.map (·.call)).reverse

instance [Token τ] : Token (Logged τ) where
  answer call t :=
    let (result, token) := Token.answer call t.token
    (result, ⟨token, ⟨call, result⟩ :: t.log⟩)
  ownsObjects t session := Token.ownsObjects t.token session

end Logged

namespace Recorded

export Logged (start)

end Recorded

end Cryptoki
