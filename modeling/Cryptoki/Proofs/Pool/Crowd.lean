import Cryptoki.Proofs.Lease
import Cryptoki.Proofs.Table
import Cryptoki.Proofs.Token.Logged

/-!
# `Cryptoki.Proofs.Pool.Crowd` — many users of one pool, step by step

Leasing a session and ending a lease take several steps, and nobody waits for anybody between them.
Here each user goes through these steps one at a time, in any order with the steps of the others. A
user goes by the number of a ticket, which says how far it has got; a step for which it is not the
time does nothing. The steps are those of the pool, and a user who is alone gets from them what the
pool's own functions return.

## Contents
- `Stage`, `Ending`, `Stage.ended` — how far a user has got, and how a lease is ended.
- `Crowd`, `Crowd.Move`, `Crowd.step`, `Crowd.run` — the pool with all its users, and their steps.
- `Crowd.Moved`, `Crowd.moved` — what comes of a step.
- `Crowd.acquire_alone`, `Crowd.close_alone`, `Crowd.discard_alone` — the steps of a user alone.
-/

namespace Cryptoki

/-! ## Stages -/

/-- How far a user of a pool has got. -/
inductive Stage
  /-- A slot is reserved, and the session yet to be opened. -/
  | reserved
  /-- The token opened no session for the slot. -/
  | refused
  | leased (lease : Lease)
  /-- The lease is over, and the session yet to be given back. -/
  | releasing (session : SessionId)
  /-- The lease is over, and the session yet to be closed on the token. -/
  | closing (session : SessionId)
  /-- The session was closed on the token, and its slot yet to be given up. -/
  | closed

/-- How a lease is ended: closed, dropped, or killed. -/
inductive Ending
  | close
  | drop
  | kill

namespace Stage

/-- The first ending takes the session out of the lease; any after it finds none. -/
def ended (how : Ending) : Stage → Stage
  | leased lease =>
    match how with
    | .kill => closing lease.session
    | .close | .drop => if lease.active then closing lease.session else releasing lease.session
  | stage => stage

/-- The session that a user holds, if any. -/
def session? : Stage → Option SessionId
  | leased lease => some lease.session
  | releasing session | closing session => some session
  | reserved | refused | closed => none

/-- An ending changes hands only. -/
theorem session?_ended (how : Ending) (stage : Stage) :
    (stage.ended how).session? = stage.session? := by
  cases stage with
  | leased lease =>
      cases how with
      | kill => rfl
      | close => simp only [ended]; split <;> rfl
      | drop => simp only [ended]; split <;> rfl
  | reserved => rfl
  | refused => rfl
  | releasing session => rfl
  | closing session => rfl
  | closed => rfl

end Stage

/-! ## Steps -/

/-- A pool with all its users. -/
structure Crowd (τ : Type) where
  pool : Pool (Logged τ)
  tickets : Table Nat Stage
  /-- The sessions that were opened for the pool, and that the token has not closed for it since. -/
  own : List SessionId

namespace Crowd

/-- A step of one of the users, or a call on the token by somebody else. -/
inductive Move
  /-- Takes an idle session, or reserves a slot for another. -/
  | acquire (k : Nat)
  /-- Opens a session for the slot. -/
  | openReserved (k : Nat)
  | operate (k : Nat) (primitive : Primitive)
  | finish (k : Nat) (how : Ending)
  /-- Gives the session back. -/
  | release (k : Nat)
  | closeOnToken (k : Nat)
  /-- Gives the slot up, after its session was closed or not opened. -/
  | freeSlot (k : Nat)
  | outside (call : Call)

/-- The ticket of the user whose step it is. -/
def Move.ticket? : Move → Option Nat
  | acquire k | openReserved k | operate k _ | finish k _ | release k | closeOnToken k
  | freeSlot k => some k
  | outside _ => none

variable {τ : Type}

/-- The pool without users. -/
def start (token : τ) (config : PoolConfig) : Crowd τ :=
  ⟨.empty (.start token) config, .empty, []⟩

variable [Token τ]

/-- One step. Nobody but the users of the pool closes its sessions. -/
def step (c : Crowd τ) : Move → Crowd τ
  | .acquire k =>
    match c.tickets.get? k with
    | some _ => c
    | none =>
      match c.pool.takeIdle? with
      | some (session, pool) =>
        { c with pool, tickets := c.tickets.insert k (.leased ⟨session, false⟩) }
      | none =>
        match c.pool.reserve? with
        | some pool => { c with pool, tickets := c.tickets.insert k .reserved }
        | none => c
  | .openReserved k =>
    match c.tickets.get? k with
    | some .reserved =>
      match c.pool.openSession with
      | (.ok session, pool) =>
        ⟨pool, c.tickets.insert k (.leased ⟨session, false⟩), session :: c.own⟩
      | (.error _, pool) => { c with pool, tickets := c.tickets.insert k .refused }
    | _ => c
  | .operate k primitive =>
    match c.tickets.get? k with
    | some (.leased lease) =>
      let (_, lease, pool) := lease.operate primitive c.pool
      { c with pool, tickets := c.tickets.insert k (.leased lease) }
    | _ => c
  | .finish k how =>
    match c.tickets.get? k with
    | some stage => { c with tickets := c.tickets.insert k (stage.ended how) }
    | none => c
  | .release k =>
    match c.tickets.get? k with
    | some (.releasing session) =>
      { c with pool := c.pool.release session, tickets := c.tickets.erase k }
    | _ => c
  | .closeOnToken k =>
    match c.tickets.get? k with
    | some (.closing session) =>
      ⟨c.pool.closeOnToken session, c.tickets.insert k .closed,
        if (c.pool.call (.closeSession session)).1.isOk then c.own.erase session else c.own⟩
    | _ => c
  | .freeSlot k =>
    match c.tickets.get? k with
    | some .refused | some .closed =>
      { c with pool := c.pool.freeSlot, tickets := c.tickets.erase k }
    | _ => c
  | .outside call =>
    if ∃ session ∈ c.own, call = .closeSession session then c
    else { c with pool := (c.pool.call call).2 }

/-- Steps one after the other. -/
def run (c : Crowd τ) (moves : List Move) : Crowd τ := moves.foldl step c

/-! ## What comes of a step -/

/-- The ways that a step can go. -/
inductive Moved (c : Crowd τ) : Move → Crowd τ → Prop
  /-- It is not the time for the step. -/
  | stuck {m : Move} : Moved c m c
  | reused {k : Nat} {session : SessionId} {idle : List SessionId}
      (hfree : c.tickets.get? k = none) (hidle : c.pool.idle = session :: idle) :
      Moved c (.acquire k)
        { c with
          pool := { c.pool with idle },
          tickets := c.tickets.insert k (.leased ⟨session, false⟩) }
  | reserved {k : Nat} (hfree : c.tickets.get? k = none)
      (hroom : c.pool.opened < c.pool.config.maxSessions) :
      Moved c (.acquire k)
        { c with
          pool := { c.pool with opened := c.pool.opened + 1 },
          tickets := c.tickets.insert k .reserved }
  | opened {k : Nat} {session : SessionId} {t : Logged τ}
      (hstage : c.tickets.get? k = some .reserved)
      (hopen : Token.answer .openSession c.pool.token = (.ok session, t)) :
      Moved c (.openReserved k)
        ⟨{ c.pool with token := t }, c.tickets.insert k (.leased ⟨session, false⟩),
          session :: c.own⟩
  | refused {k : Nat} {code : ReturnCode} {t : Logged τ}
      (hstage : c.tickets.get? k = some .reserved)
      (hopen : Token.answer .openSession c.pool.token = (.error code, t)) :
      Moved c (.openReserved k)
        { c with pool := { c.pool with token := t }, tickets := c.tickets.insert k .refused }
  | operated {k : Nat} {lease : Lease} {primitive : Primitive} {active : Bool}
      {result : Except ReturnCode primitive.Result} {t : Logged τ}
      (hstage : c.tickets.get? k = some (.leased lease))
      (hop : Token.answer (.operate lease.session primitive) c.pool.token = (result, t)) :
      Moved c (.operate k primitive)
        { c with
          pool := { c.pool with token := t },
          tickets := c.tickets.insert k (.leased ⟨lease.session, active⟩) }
  | ended {k : Nat} {how : Ending} {stage : Stage} (hstage : c.tickets.get? k = some stage) :
      Moved c (.finish k how) { c with tickets := c.tickets.insert k (stage.ended how) }
  | released {k : Nat} {session : SessionId}
      (hstage : c.tickets.get? k = some (.releasing session)) :
      Moved c (.release k)
        { c with
          pool := { c.pool with idle := session :: c.pool.idle },
          tickets := c.tickets.erase k }
  | closed {k : Nat} {session : SessionId} {result : Except ReturnCode Unit} {t : Logged τ}
      (hstage : c.tickets.get? k = some (.closing session))
      (hclose : Token.answer (.closeSession session) c.pool.token = (result, t)) :
      Moved c (.closeOnToken k)
        ⟨{ c.pool with token := t }, c.tickets.insert k .closed,
          if result.isOk then c.own.erase session else c.own⟩
  | freed {k : Nat} {stage : Stage} (hstage : c.tickets.get? k = some stage)
      (hslot : stage = .refused ∨ stage = .closed) :
      Moved c (.freeSlot k)
        { c with
          pool := { c.pool with opened := c.pool.opened - 1 },
          tickets := c.tickets.erase k }
  | outside {call : Call} {result : Except ReturnCode call.Result} {t : Logged τ}
      (hown : ∀ session ∈ c.own, call ≠ .closeSession session)
      (hcall : Token.answer call c.pool.token = (result, t)) :
      Moved c (.outside call) { c with pool := { c.pool with token := t } }

theorem moved_acquire (c : Crowd τ) (k : Nat) : c.Moved (.acquire k) (c.step (.acquire k)) := by
  simp only [step, Pool.takeIdle?, Pool.reserve?]
  split
  · exact .stuck
  · next hfree =>
      cases hidle : c.pool.idle with
      | cons session idle => exact .reused hfree hidle
      | nil =>
          by_cases hroom : c.pool.opened < c.pool.config.maxSessions
          · simp only [if_pos hroom]
            simpa only [hidle] using Moved.reserved hfree hroom
          · simp only [if_neg hroom]
            exact .stuck

theorem moved_openReserved (c : Crowd τ) (k : Nat) :
    c.Moved (.openReserved k) (c.step (.openReserved k)) := by
  simp only [step, Pool.openSession, Pool.call]
  split
  · next hstage =>
      cases hopen : Token.answer .openSession c.pool.token with
      | mk result t =>
          cases result with
          | ok session => exact .opened hstage hopen
          | error code => exact .refused hstage hopen
  · exact .stuck

theorem moved (c : Crowd τ) (m : Move) : c.Moved m (c.step m) := by
  cases m with
  | acquire k => exact c.moved_acquire k
  | openReserved k => exact c.moved_openReserved k
  | operate k primitive =>
      simp only [step]
      split
      · next lease hstage => exact .operated hstage rfl
      · exact .stuck
  | finish k how =>
      simp only [step]
      split
      · next stage hstage => exact .ended hstage
      · exact .stuck
  | release k =>
      simp only [step]
      split
      · next session hstage => exact .released hstage
      · exact .stuck
  | closeOnToken k =>
      simp only [step]
      split
      · next session hstage => exact .closed hstage rfl
      · exact .stuck
  | freeSlot k =>
      simp only [step]
      split
      · next hstage => exact .freed hstage (.inl rfl)
      · next hstage => exact .freed hstage (.inr rfl)
      · exact .stuck
  | outside call =>
      simp only [step]
      split
      · exact .stuck
      · next hclose =>
          -- a call that would close one of the pool's own sessions is not made
          refine .outside ?_ rfl
          intro session hown heq
          exact hclose ⟨session, hown, heq⟩

/-! ## A user alone -/

variable {c : Crowd τ} {k : Nat}

/-- Without idle sessions, acquiring reserves a slot if there is room. -/
theorem step_acquire_of_room (hfree : c.tickets.get? k = none) (hidle : c.pool.idle = [])
    (hroom : c.pool.opened < c.pool.config.maxSessions) :
    c.step (.acquire k) =
      { c with
        pool := { c.pool with opened := c.pool.opened + 1 },
        tickets := c.tickets.insert k .reserved } := by
  simp only [step, hfree, Pool.takeIdle?, hidle, Pool.reserve?, if_pos hroom]

/-- A user who is alone acquires a lease, or none, as the pool says. -/
theorem acquire_alone (hfree : c.tickets.get? k = none) :
    let after := c.run [.acquire k, .openReserved k, .freeSlot k]
    after.pool = c.pool.acquire.2
      ∧ after.tickets.get? k = c.pool.acquire.1.toOption.map .leased := by
  have hacquired := c.pool.acquired
  generalize c.pool.acquire = out at hacquired ⊢
  simp only [run, List.foldl_cons, List.foldl_nil]
  cases hacquired with
  | @reused session idle hidle =>
      have hstep : c.step (.acquire k) =
          { c with
            pool := { c.pool with idle },
            tickets := c.tickets.insert k (.leased ⟨session, false⟩) } := by
        simp only [step, hfree, Pool.takeIdle?, hidle]
      rw [hstep]
      simp [step, Table.get?_insert, Except.toOption]
  | full hidle hfull =>
      have hstep : c.step (.acquire k) = c := by
        simp only [step, hfree, Pool.takeIdle?, hidle, Pool.reserve?, if_neg (Nat.not_lt.mpr hfull)]
      rw [hstep]
      simp [step, hfree, Except.toOption]
  | fresh hidle hroom hopen =>
      rw [step_acquire_of_room hfree hidle hroom]
      simp [step, Table.get?_insert, Pool.openSession, Pool.call, hopen, Except.toOption]
  | refused hidle hroom hopen =>
      rw [step_acquire_of_room hfree hidle hroom]
      simp [step, Table.get?_insert, Table.get?_erase, Pool.openSession, Pool.call, hopen,
        Pool.freeSlot, Except.toOption]

/-- A user who is alone closes a lease as the lease does. -/
theorem close_alone {lease : Lease} (hstage : c.tickets.get? k = some (.leased lease)) :
    let after := c.run [.finish k .close, .release k, .closeOnToken k, .freeSlot k]
    after.pool = lease.close c.pool ∧ after.tickets.get? k = none := by
  simp only [run, List.foldl_cons, List.foldl_nil]
  cases hactive : lease.active with
  | true =>
      simp [step, hstage, Stage.ended, hactive, Table.get?_insert, Table.get?_erase, Lease.close,
        Pool.discard]
  | false =>
      simp [step, hstage, Stage.ended, hactive, Table.get?_insert, Table.get?_erase, Lease.close]

/-- A user who is alone kills a lease as discarding it does. -/
theorem discard_alone {lease : Lease} (hstage : c.tickets.get? k = some (.leased lease)) :
    let after := c.run [.finish k .kill, .closeOnToken k, .freeSlot k]
    after.pool = lease.discard c.pool ∧ after.tickets.get? k = none := by
  simp [run, step, hstage, Stage.ended, Table.get?_insert, Table.get?_erase, Lease.discard,
    Pool.discard]

end Crowd

end Cryptoki
