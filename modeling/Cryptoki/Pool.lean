import Cryptoki.EngineError
import Cryptoki.PoolConfig
import Cryptoki.Token

/-!
# `Cryptoki.Pool` — a bounded pool of sessions on one token

The pool lends sessions one at a time. It takes an idle one if there is one, and else opens another
as long as the bound allows. Opening and closing a session take two steps each, as the token is
called between them: a slot is reserved before the session is opened, and given up after it is
closed. Every function of the section on steps is one step that nobody can come between.

## Contents
- `Pool`, `Pool.empty`, `Pool.ofConfig` — the pool, and how it starts.
- `Occupancy`, `Pool.occupancy` — how many sessions it has, and how many of them are in use.
- `Pool.takeIdle?`, `Pool.reserve?`, `Pool.openSession`, `Pool.freeSlot`, `Pool.release`,
  `Pool.closeOnToken` — the steps.
- `Pool.discard` — the steps that end a session.
- `Pool.obtain` — the steps that lead to a session.
-/

namespace Cryptoki

/-- A pool of sessions on one token. -/
structure Pool (τ : Type) where
  config : PoolConfig
  token : τ
  /-- The sessions waiting for use, the last one given back first. -/
  idle : List SessionId
  /-- The sessions counted against the bound. -/
  opened : Nat

/-- The occupancy of a pool. -/
structure Occupancy where
  opened : Nat
  idle : Nat
  inUse : Nat
deriving DecidableEq, Repr

namespace Pool

variable {τ : Type}

/-- The pool without sessions. -/
def empty (token : τ) (config : PoolConfig) : Pool τ := ⟨config, token, [], 0⟩

/-- The pool without sessions, if its settings are allowed. -/
def ofConfig (token : τ) (config : PoolConfig) : Except PoolConfigError (Pool τ) :=
  config.validate.map fun _ => empty token config

/-- The occupancy. -/
def occupancy (p : Pool τ) : Occupancy := ⟨p.opened, p.idle.length, p.opened - p.idle.length⟩

/-! ## Steps -/

/-- Takes the session that was given back last. -/
def takeIdle? (p : Pool τ) : Option (SessionId × Pool τ) :=
  match p.idle with
  | [] => none
  | session :: idle => some (session, { p with idle })

/-- Reserves a slot for another session. -/
def reserve? (p : Pool τ) : Option (Pool τ) :=
  if p.opened < p.config.maxSessions then some { p with opened := p.opened + 1 } else none

/-- Gives up a slot. -/
def freeSlot (p : Pool τ) : Pool τ := { p with opened := p.opened - 1 }

/-- Makes a session wait for its next use. -/
def release (p : Pool τ) (session : SessionId) : Pool τ := { p with idle := session :: p.idle }

variable [Token τ]

/-- Calls the token. -/
def call (p : Pool τ) (c : Call) : Except ReturnCode c.Result × Pool τ :=
  let (result, token) := Token.answer c p.token
  (result, { p with token })

/-- Opens a session for a slot that is reserved. -/
def openSession (p : Pool τ) : Except ReturnCode SessionId × Pool τ := p.call .openSession

/-- Closes a session on the token, whatever the token says to it. -/
def closeOnToken (p : Pool τ) (session : SessionId) : Pool τ := (p.call (.closeSession session)).2

/-! ## Runs of steps -/

/-- Closes a session and gives up its slot. -/
def discard (p : Pool τ) (session : SessionId) : Pool τ := (p.closeOnToken session).freeSlot

/-- The error of a session that could not be opened. -/
def openFailure (code : ReturnCode) : EngineError :=
  if code = .sessionCount then .noSession .refusedByToken
  else .tokenFailure .openSession code

/-- A session for use: an idle one, or another if the bound allows it. -/
def obtain (p : Pool τ) : Except EngineError SessionId × Pool τ :=
  match p.takeIdle? with
  | some (session, p) => (.ok session, p)
  | none =>
    match p.reserve? with
    | none => (.error (.noSession (.allInUse p.config.maxSessions)), p)
    | some p =>
      match p.openSession with
      | (.ok session, p) => (.ok session, p)
      | (.error code, p) => (.error (openFailure code), p.freeSlot)

end Pool

end Cryptoki
