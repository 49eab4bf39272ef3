import Cryptoki.Pool

/-!
# `Cryptoki.Lease` — the use of one session

A session of a pool is used through a lease only. The lease keeps watch of whether an operation is
under way, so that giving the session back can tell whether another may use it.

## Contents
- `Lease` — a session, and whether an operation is under way.
- `Primitive.activeAfter` — what a primitive does to that.
- `Pool.acquire` — a lease of a session.
- `Lease.operate` — a primitive on the session.
- `Lease.close`, `Lease.discard` — the two ways to end a lease.
-/

namespace Cryptoki

/-- The use of one session. -/
structure Lease where
  session : SessionId
  /-- Whether an operation is under way. -/
  active : Bool
deriving DecidableEq, Repr

/-- Whether an operation is under way after a primitive, by whether one was before and whether the
primitive succeeded: a start that fails changes nothing, an update that fails ends the operation,
and the last call ends it in any case. -/
def Primitive.activeAfter (active success : Bool) : Primitive → Bool
  | .init .. => success || active
  | .update .. => success && active
  | .signFinal _ | .sign _ | .verifyFinal _ | .verify .. => false

variable {τ : Type} [Token τ]

/-- A lease of a session. -/
def Pool.acquire (p : Pool τ) : Except EngineError Lease × Pool τ :=
  let (result, p) := p.obtain
  (result.map (⟨·, false⟩), p)

namespace Lease

/-- A primitive on the session. -/
def operate (l : Lease) (primitive : Primitive) (p : Pool τ) :
    Except ReturnCode primitive.Result × Lease × Pool τ :=
  let (result, p) := p.call (.operate l.session primitive)
  (result, { l with active := primitive.activeAfter l.active result.isOk }, p)

/-- Whether the session owns objects, which would be lost with it. -/
def ownsObjects (l : Lease) (p : Pool τ) : Bool := Token.ownsObjects p.token l.session

/-- Closes the session. -/
def discard (l : Lease) (p : Pool τ) : Pool τ := p.discard l.session

/-- Gives the session back for another use, or closes it if an operation is still under way. -/
def close (l : Lease) (p : Pool τ) : Pool τ :=
  if l.active then p.discard l.session else p.release l.session

end Lease

end Cryptoki
