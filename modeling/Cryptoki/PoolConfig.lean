/-!
# `Cryptoki.PoolConfig` — the settings of a session pool

## Contents
- `PoolConfig` — the settings and their defaults.
- `PoolConfig.validate`, `PoolConfigError` — the values that are allowed.
- `PoolConfig.timeout` — the time a caller waits for a session.
-/

namespace Cryptoki

/-- The largest pool. -/
def maxSessionsLimit : Nat := 4096

/-- The settings of a session pool. -/
structure PoolConfig where
  /-- The sessions that may be open at once. -/
  maxSessions : Nat := 32
  /-- The milliseconds a caller waits for a session. -/
  acquireTimeoutMs : Nat := 5000
  /-- Whether an operation that is given up is ended on the token, or dropped with its session. -/
  explicitCancel : Bool := true
deriving DecidableEq, Repr

/-- A setting that is not allowed. -/
inductive PoolConfigError
  /-- The sessions are none, or more than `maxSessionsLimit`. -/
  | invalidMaxSessions (value : Nat)
  /-- A caller would not wait at all. -/
  | zeroAcquireTimeout
deriving DecidableEq, Repr

/-- The error in words. -/
def PoolConfigError.message : PoolConfigError → String
  | .invalidMaxSessions value =>
    "max_sessions must be between 1 and " ++ toString maxSessionsLimit ++ ", got "
      ++ toString value
  | .zeroAcquireTimeout => "acquire_timeout_ms cannot be 0"

namespace PoolConfig

variable (c : PoolConfig)

/-- Every setting is allowed. -/
def validate : Except PoolConfigError Unit :=
  if c.maxSessions = 0 ∨ maxSessionsLimit < c.maxSessions then
    .error (.invalidMaxSessions c.maxSessions)
  else if c.acquireTimeoutMs = 0 then .error .zeroAcquireTimeout
  else .ok ()

/-- The time a caller waits, in whole seconds and the nanoseconds beyond. -/
def timeout : Nat × Nat := (c.acquireTimeoutMs / 1000, c.acquireTimeoutMs % 1000 * 1000000)

end PoolConfig

end Cryptoki
