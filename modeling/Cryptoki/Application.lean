import Cryptoki.Engine.Run
import Cryptoki.Table

/-!
# `Cryptoki.Application` — engines and leases that share a pool

Any number of engines, and of leases used on their own, share one pool. Both go by name. Commands
come one after the other; besides those of engines and leases there are calls on the token that go
past the pool.

## Contents
- `Application` — the pool with everything that uses it.
- `Application.Command`, `Application.Reply` — what can be asked, and what comes back.
- `Application.step`, `Application.run` — one command, and one after the other.
-/

namespace Cryptoki

/-- Engines and leases that share a pool. -/
structure Application (τ : Type) where
  pool : Pool τ
  engines : Table String Engine
  leases : Table String Lease

namespace Application

/-- A command to an application. -/
inductive Command
  /-- Makes an engine under a name; an engine that had it ends. -/
  | newEngine (name algorithm : String) (mechanism : Mechanism)
  | engine (name : String) (request : Engine.Request)
  | dropEngine (name : String)
  /-- Leases a session under a name; a lease that had it is closed. -/
  | acquire (name : String)
  | lease (name : String) (primitive : Primitive)
  | closeLease (name : String)
  | discardLease (name : String)
  /-- Calls the token past the pool. -/
  | token (call : Call)
deriving DecidableEq, Repr

/-- What comes back from a command. -/
inductive Reply
  /-- Nothing goes by the name. -/
  | unknownName
  | done
  | made (result : Except EngineError Scheme)
  | engine (result : Except EngineError Engine.Answer)
  | leased (result : Except EngineError SessionId)
  | primitive (p : Primitive) (result : Except ReturnCode p.Result)
  | token (call : Call) (result : Except ReturnCode call.Result)

variable {τ : Type}

/-- The application without engines and leases. -/
def start (pool : Pool τ) : Application τ := ⟨pool, .empty, .empty⟩

variable [Token τ]

/-- One command. -/
def step (a : Application τ) : Command → Reply × Application τ
  | .newEngine name algorithm mechanism =>
    match Engine.new algorithm mechanism with
    | .error err => (.made (.error err), a)
    | .ok engine =>
      let pool :=
        match a.engines.get? name with
        | some old => old.close a.pool
        | none => a.pool
      (.made (.ok engine.scheme), { a with pool, engines := a.engines.insert name engine })
  | .engine name request =>
    match a.engines.get? name with
    | none => (.unknownName, a)
    | some engine =>
      let (result, engine, pool) := engine.handle request a.pool
      (.engine result, { a with pool, engines := a.engines.insert name engine })
  | .dropEngine name =>
    match a.engines.get? name with
    | none => (.unknownName, a)
    | some engine =>
      (.done, { a with pool := engine.close a.pool, engines := a.engines.erase name })
  | .acquire name =>
    match a.pool.acquire with
    | (.error err, pool) => (.leased (.error err), { a with pool })
    | (.ok lease, pool) =>
      let pool :=
        match a.leases.get? name with
        | some old => old.close pool
        | none => pool
      (.leased (.ok lease.session), { a with pool, leases := a.leases.insert name lease })
  | .lease name primitive =>
    match a.leases.get? name with
    | none => (.unknownName, a)
    | some lease =>
      let (result, lease, pool) := lease.operate primitive a.pool
      (.primitive primitive result, { a with pool, leases := a.leases.insert name lease })
  | .closeLease name =>
    match a.leases.get? name with
    | none => (.unknownName, a)
    | some lease =>
      (.done, { a with pool := lease.close a.pool, leases := a.leases.erase name })
  | .discardLease name =>
    match a.leases.get? name with
    | none => (.unknownName, a)
    | some lease =>
      (.done, { a with pool := lease.discard a.pool, leases := a.leases.erase name })
  | .token call =>
    let (result, pool) := a.pool.call call
    (.token call result, { a with pool })

/-- Commands one after the other: the replies in order, and the application after the last. -/
def run (a : Application τ) : List Command → List Reply × Application τ
  | [] => ([], a)
  | command :: commands =>
    let (reply, a) := a.step command
    let (replies, a) := run a commands
    (reply :: replies, a)

end Application

end Cryptoki
