import Cryptoki.Proofs.Application.Keeps
import Cryptoki.Proofs.Token.Logged

/-!
# `Cryptoki.Proofs.Engine.Reach` — a token is changed by calls only

Whatever is done with pools, leases and engines, the token goes from one state to another by calls,
and in no other way. So what every call of a token keeps is kept by everything that is built on it,
be it an engine that starts or one that is dropped.

## Contents
- `Pool.acquire_reached`, `Lease.operate_reached`, `Lease.close_reached` — leases.
- `keeps_token`, `keeps_reached` — all uses of a lease.
- `Engine.accept_reached`, `Engine.abandon_reached` — engines, on the way to a start.
- `Application.step_reached` — commands.
-/

namespace Cryptoki

variable {τ : Type} [Token τ]

open Token (Reached)

variable {p q : Pool τ}

/-! ## Leases -/

theorem Pool.acquire_reached {result : Except EngineError Lease} (h : p.acquire = (result, q)) :
    Reached p.token q.token := by
  have hacquired := p.acquired
  rw [h] at hacquired
  cases hacquired with
  | reused => exact .start
  | full => exact .start
  | fresh _ _ hopen => exact Reached.start.answer hopen
  | refused _ _ hopen => exact Reached.start.answer hopen

namespace Lease

variable {lease lease' : Lease}

theorem operate_reached {primitive : Primitive} {result : Except ReturnCode primitive.Result}
    (h : lease.operate primitive p = (result, lease', q)) : Reached p.token q.token := by
  obtain ⟨_, _, hanswer⟩ := operate_cases h
  exact Reached.start.answer hanswer

theorem discard_reached (lease : Lease) (p : Pool τ) :
    Reached p.token (lease.discard p).token := Reached.start.call _

theorem close_reached (lease : Lease) (p : Pool τ) : Reached p.token (lease.close p).token := by
  unfold close
  split
  · exact lease.discard_reached p
  · exact .start

end Lease

/-- What every call keeps of a token, every use of a lease keeps. -/
theorem keeps_token {P : τ → Prop} (hcall : ∀ c t, P t → P (Token.answer c t).2) :
    Keeps fun _ p => P p.token where
  acquire h hacq := (Pool.acquire_reached hacq).keeps hcall h
  operate h hop := (Lease.operate_reached hop).keeps hcall h
  close h := (Lease.close_reached _ _).keeps hcall h
  discard h := (Lease.discard_reached _ _).keeps hcall h
  asked _ h := hcall _ _ h

/-- A token that calls have led to is led on by every use of a lease. -/
theorem keeps_reached (t : τ) : Keeps fun _ p => Reached t p.token :=
  keeps_token fun c _ h => h.call c

/-! ## Engines -/

namespace Engine

variable {e : Engine}

theorem obtainLease_reached {lease : Lease} (h : e.obtainLease p = (.ok lease, q)) :
    Reached p.token q.token := by
  unfold obtainLease at h
  split at h
  · obtain ⟨_, rfl⟩ := Prod.mk.inj h
    exact .start
  · exact Pool.acquire_reached h

theorem accept_reached (e : Engine) (key : Key) (mode : OperationMode) (p : Pool τ) :
    Reached p.token (e.accept key mode p).2.token := by
  rcases e.accept_pool key mode p with h | h
  · rw [h]
    exact .start
  · rw [h]
    exact Reached.start.call _

theorem abandon_reached (e : Engine) (p : Pool τ) : Reached p.token (e.abandon p).2.token :=
  (keeps_reached p.token).abandon (e := e) .start

end Engine

/-! ## Commands -/

/-- **A command changes the token by calls only.** -/
theorem Application.step_reached (a : Application τ) (c : Command) :
    Reached a.pool.token (a.step c).2.pool.token :=
  step_pool_keeps (keeps_reached a.pool.token) .start fun call _ => Reached.start.call call

end Cryptoki
