import Cryptoki.Application
import Cryptoki.Proofs.Engine.Keeps

/-!
# `Cryptoki.Proofs.Application.Keeps` — what every command keeps

A command uses the sessions of those it is about, and perhaps one that it acquires. So what each use
of a lease keeps of the pool, as long as the lease is on a session of some kind, a command keeps if
all sessions that it uses are of the kind.

## Contents
- `Application.Command.engine?` — the engine that a command is about.
- `Application.step_keeps` — what each use of a lease keeps, every command keeps.
- `Application.step_pool_keeps` — the same, for what does not depend on the session.
-/

namespace Cryptoki.Application

/-- The engine that a command is about, if it is about one. -/
def Command.engine? : Command → Option String
  | .newEngine name _ _ | .engine name _ | .dropEngine name => some name
  | _ => none

variable {τ : Type} [Token τ] {P : Pool τ → Prop} {L : SessionId → Prop} {a : Application τ}
  {c : Command}

/-- **What each use of a lease keeps of a pool, every command keeps**, if all leases that it uses
    are on sessions for which that is so. -/
theorem step_keeps (hkeeps : Keeps fun l p => P p ∧ ∀ lease, l = some lease → L lease.session)
    (h : P a.pool)
    (hengine : ∀ name e lease, c.engine? = some name → a.engines.get? name = some e →
      e.lease = some lease → L lease.session)
    (hleases : ∀ name lease, a.leases.get? name = some lease → L lease.session)
    (htoken : ∀ call, c = .token call → P (a.pool.call call).2) : P (a.step c).2.pool := by
  have hone : ∀ {p : Pool τ} {lease : Lease}, P p → L lease.session →
      P p ∧ ∀ held, some lease = some held → L held.session :=
    fun hp hl => ⟨hp, fun held hheld => Option.some.inj hheld ▸ hl⟩
  have hfree : P a.pool ∧ ∀ held, (none : Option Lease) = some held → L held.session := by
    refine ⟨h, ?_⟩
    intro held hheld
    cases hheld
  cases c with
  | newEngine name algorithm mechanism =>
      simp only [step]
      split
      · exact h
      · dsimp only
        split
        · next old hget => exact (hkeeps.closed ⟨h, fun lease => hengine name old lease rfl hget⟩).1
        · exact h
  | engine name request =>
      simp only [step]
      split
      · exact h
      · next e hget =>
          exact (hkeeps.handle ⟨h, fun lease => hengine name e lease rfl hget⟩ request).1
  | dropEngine name =>
      simp only [step]
      split
      · exact h
      · next e hget => exact (hkeeps.closed ⟨h, fun lease => hengine name e lease rfl hget⟩).1
  | acquire name =>
      simp only [step]
      split
      · next hacq => exact (hkeeps.acquire hfree hacq).1
      · next lease pool hacq =>
          have hacquired := (hkeeps.acquire hfree hacq).1
          dsimp only
          -- the lease that had the name is closed after the new one was acquired
          split
          · next old hget => exact (hkeeps.close (hone hacquired (hleases name old hget))).1
          · exact hacquired
  | lease name primitive =>
      simp only [step]
      split
      · exact h
      · next lease hget => exact (hkeeps.operate (hone h (hleases name lease hget)) rfl).1
  | closeLease name =>
      simp only [step]
      split
      · exact h
      · next lease hget => exact (hkeeps.close (hone h (hleases name lease hget))).1
  | discardLease name =>
      simp only [step]
      split
      · exact h
      · next lease hget => exact (hkeeps.discard (hone h (hleases name lease hget))).1
  | token call => exact htoken call rfl

/-- What each use of a lease keeps of a pool, whatever its session is, every command keeps. -/
theorem step_pool_keeps (hkeeps : Keeps fun _ p => P p) (h : P a.pool)
    (htoken : ∀ call, c = .token call → P (a.pool.call call).2) : P (a.step c).2.pool := by
  refine step_keeps (L := fun _ => True) ?_ h (fun _ _ _ _ _ _ => trivial)
    (fun _ _ _ => trivial) htoken
  exact {
    acquire := fun h hacq => ⟨hkeeps.acquire h.1 hacq, fun _ _ => trivial⟩
    operate := fun h hop => ⟨hkeeps.operate h.1 hop, fun _ _ => trivial⟩
    close := fun h => ⟨hkeeps.close h.1, fun _ _ => trivial⟩
    discard := fun h => ⟨hkeeps.discard h.1, fun _ _ => trivial⟩
    asked := fun mechanism h => ⟨hkeeps.asked (l := none) mechanism h.1, fun _ _ => trivial⟩ }

end Cryptoki.Application
