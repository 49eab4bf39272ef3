import Cryptoki.Proofs.Engine.Lifecycle
import Cryptoki.Proofs.Scheme

/-!
# `Cryptoki.Proofs.Engine.Binding` — the keys that an engine can be bound to

A key is bound in one place only, after it has been checked; everything else keeps the bound key or
lets go of it. Its size is not checked again when the bound key itself is bound once more. So what
the check says of a key holds of every key that is bound, for as long as it is.

## Contents
- `Engine.Binds` — what is known of the bound key.
- `Engine.announced`, `Engine.sized_of_accept` — the check of a key's size.
- `Engine.handle_binds` — what the check says is known of the bound key.
- `Engine.after_roomy` — a bound RSA key has room for the digest.
- `Engine.StartFailure`, `Engine.startWith_error` — what stays bound after a start that fails.
-/

namespace Cryptoki.Engine

variable {τ : Type} [Token τ] {scheme : Scheme} {e e' : Engine} {p q : Pool τ}

/-- What is known of the bound key. -/
def Binds (P : Key → Prop) (e : Engine) : Prop := ∀ key, e.key = some key → P key

variable {P : Key → Prop}

theorem Binds.of_key (h : e.Binds P) (hkey : e'.key = none ∨ e'.key = e.key) : e'.Binds P := by
  intro key hbound
  rcases hkey with hnone | hsame
  · exact absurd (hnone.symm.trans hbound) (by simp)
  · exact h key (hsame ▸ hbound)

/-! ## Keeping the key -/

theorem start_key {result : Except EngineError Unit} (hstart : e.start p = (result, e', q)) :
    e'.key = none ∨ e'.key = e.key := by
  have hstarted := e.started p
  rw [hstart] at hstarted
  cases hstarted with
  | unbound => exact .inr rfl
  | starved => exact .inr rfl
  | begun => exact .inr rfl
  | @refused _ mode _ _ _ _ code =>
      unfold afterRefusal
      split
      · exact .inl rfl
      · exact .inr rfl

theorem abandon_key (e : Engine) (p : Pool τ) : (e.abandon p).1.key = e.key := by
  have habandoned := e.abandoned p
  generalize e.abandon p = out at habandoned ⊢
  cases habandoned <;> rfl

theorem giveBack_key (e : Engine) (p : Pool τ) : (e.giveBack p).1.key = e.key := by
  unfold giveBack
  split <;> rfl

theorem update_key (h : e.Coherent scheme) (data : Bytes) (p : Pool τ) :
    (e.update data p).2.1.key = none ∨ (e.update data p).2.1.key = e.key := by
  have hupdated := h.updated data p
  generalize e.update data p = out at hupdated ⊢
  cases hupdated with
  | notStarted _ hstart => exact start_key hstart
  | empty hstart => exact .inr (h.ensureStarted hstart).2.1
  | gathered hstart => exact .inr (h.ensureStarted hstart).2.1
  | forwarded hstart => exact .inr (h.ensureStarted hstart).2.1
  | aborted hstart => exact .inr (h.ensureStarted hstart).2.1

theorem finish_key (h : e.Coherent scheme) {request : Request} {mode : OperationMode}
    (hfinishes : request.finishes? = some mode) (p : Pool τ) :
    (e.handle request p).2.1.key = none ∨ (e.handle request p).2.1.key = e.key := by
  have hfinished := finished (e := e) p hfinishes
  generalize (e.handle request p).2 = out at hfinished ⊢
  cases hfinished with
  | wrongMode => exact .inr rfl
  | notStarted _ _ hstart => exact start_key hstart
  | leaseless _ hstart => exact .inr (h.ensureStarted hstart).2.1
  | ended _ hstart => exact .inr (h.ensureStarted hstart).2.1

/-! ## Binding a key -/

/-- The key sizes that the token announces for the engine's mechanism, if it does. -/
def announced (e : Engine) (p : Pool τ) : Option KeySizeRange :=
  match (p.call (.mechanismInfo e.scheme.mechanism)).1 with
  | .ok info => info
  | .error _ => none

theorem acceptSize_eq (e : Engine) (key : Key) (p : Pool τ) :
    (e.acceptSize key p).1 = e.scheme.acceptSize key (e.announced p) := by
  unfold acceptSize announced
  split <;> next h => rw [h]

/-- A key that is accepted is bound already, or has an accepted size. -/
theorem sized_of_accept {key : Key} {mode : OperationMode}
    (h : (e.accept key mode p).1 = .ok ()) :
    e.key = some key ∨ e.scheme.acceptSize key (e.announced p) = .ok () := by
  rw [← acceptSize_eq]
  unfold accept at h
  split at h
  · cases h
  · split at h
    · next hbound => exact .inl hbound
    · exact .inr h

/-- Starting with a key binds that key or none. -/
theorem startWith_key (e : Engine) (key : Key) (mode : OperationMode) (p : Pool τ) :
    (e.startWith key mode p).2.1.key = none ∨
      ((e.accept key mode p).1 = .ok () ∧ (e.startWith key mode p).2.1.key = some key) := by
  unfold startWith
  split
  next check q haccept =>
    split
    next e' r habandon =>
      split
      · exact .inl (giveBack_key _ _)
      · rw [haccept]
        have hkey := start_key (e := { e' with key := some key, mode := some mode }) (p := r) rfl
        rcases hkey with hnone | hsame
        · exact .inl hnone
        · exact .inr ⟨rfl, hsame⟩

/-- A call keeps the key or lets go of it, unless it binds the key that it starts with. -/
theorem handle_key (hcoherent : e.Coherent scheme) (request : Request) (p : Pool τ) :
    (e.handle request p).2.1.key = none ∨ (e.handle request p).2.1.key = e.key
      ∨ ∃ key mode, request = .init key mode ∧ (e.handle request p).2.1.key = some key := by
  cases request with
  | init key mode =>
      rcases e.startWith_key key mode p with hnone | ⟨_, hkey⟩
      · exact .inl hnone
      · exact .inr (.inr ⟨key, mode, rfl, hkey⟩)
  | update data => exact (update_key hcoherent data p).imp_right .inl
  | sign => exact (finish_key hcoherent rfl p).imp_right .inl
  | verify signature => exact (finish_key hcoherent rfl p).imp_right .inl
  | cancel => exact .inr (.inl ((giveBack_key _ _).trans (e.abandon_key p)))

/-- **What the check of a size says is known of every key that is bound.** -/
theorem handle_binds (hcoherent : e.Coherent scheme) (h : e.Binds P) (request : Request)
    (p : Pool τ) (hsized : ∀ key, e.scheme.acceptSize key (e.announced p) = .ok () → P key) :
    (e.handle request p).2.1.Binds P := by
  cases request with
  | init key mode =>
      intro key' hbound
      rcases e.startWith_key key mode p with hnone | ⟨haccept, hkey⟩
      · exact absurd (hnone.symm.trans hbound) (by simp)
      · obtain rfl := Option.some.inj (hkey.symm.trans hbound)
        rcases sized_of_accept haccept with hsame | hsize
        · exact h _ hsame
        · exact hsized _ hsize
  | update data => exact h.of_key (update_key hcoherent data p)
  | sign => exact h.of_key (finish_key hcoherent rfl p)
  | verify signature => exact h.of_key (finish_key hcoherent rfl p)
  | cancel => exact h.of_key (.inr ((giveBack_key _ _).trans (e.abandon_key p)))

/-! ## Room for the digest -/

theorem after_roomy (hcoherent : e.Coherent scheme) (h : e.Binds scheme.Roomy)
    (turns : List (Turn τ)) : (e.after turns).Binds scheme.Roomy := by
  induction turns generalizing e with
  | nil => exact h
  | cons turn turns ih =>
      have hnext : (e.handle turn.request turn.pool).2.1.Binds scheme.Roomy :=
        handle_binds hcoherent h turn.request turn.pool
          fun key hsize => Scheme.roomy_of_acceptSize (hcoherent.scheme_eq ▸ hsize)
      exact ih (handle_coherent hcoherent turn.request turn.pool) hnext

/-! ## Starts that fail -/

variable {key : Key} {mode : OperationMode} {err : EngineError}

/-- A start that fails leaves the engine at rest. -/
theorem Bound.rest_of_init (hbound : e.Bound scheme) {err : EngineError}
    (h : (e.handle (.init key mode) p).1 = .error err) :
    (e.handle (.init key mode) p).2.1.state = .uninitialized := by
  simp only [handle, startWith] at h ⊢
  cases haccept : e.accept key mode p with
  | mk check q =>
      obtain ⟨_, hstate⟩ := abandon_bound q hbound
      rw [haccept] at h
      cases check with
      | error fault => exact giveBack_rest _ _
      | ok u =>
          dsimp only at h ⊢
          rcases hstart : Engine.start _ (e.abandon q).2 with ⟨err | u, e', r⟩
          · exact (start_error hstart).trans hstate
          · rw [hstart] at h
            cases h

/-- What an engine is bound to after a start with a key in a mode has failed. -/
inductive StartFailure (key : Key) (mode : OperationMode) (e : Engine) : EngineError → Prop
  /-- The key was at fault, and none is bound. -/
  | rejected {fault : KeyFault} (hkey : e.key = none) :
      StartFailure key mode e (.unacceptableKey fault)
  /-- There was no session. -/
  | starved {shortage : Shortage} (hkey : e.key = some key) (hmode : e.mode = some mode) :
      StartFailure key mode e (.noSession shortage)
  /-- The token failed. -/
  | failed {operation : Operation} {code : ReturnCode} (hkey : e.key = some key)
      (hmode : e.mode = some mode) : StartFailure key mode e (.tokenFailure operation code)

theorem start_failure (hkey : e.key = some key) (hmode : e.mode = some mode)
    (h : e.start p = (.error err, e', q)) : StartFailure key mode e' err := by
  have hstarted := e.started p
  rw [h] at hstarted
  cases hstarted with
  | unbound hnone =>
      rcases hnone with hnone | hnone
      · cases hnone.symm.trans hkey
      · cases hnone.symm.trans hmode
  | starved _ hacq =>
      rcases Pool.acquire_error hacq with ⟨shortage, rfl⟩ | ⟨code, rfl⟩
      · exact .starved hkey hmode
      · exact .failed hkey hmode
  | refused =>
      unfold afterRefusal
      split
      · exact .rejected rfl
      · exact .failed hkey hmode

/-- **How a start has failed tells what stays bound**, and there are no other ways. -/
theorem startWith_error (h : e.startWith key mode p = (.error err, e', q)) :
    StartFailure key mode e' err := by
  rcases haccept : e.accept key mode p with ⟨fault | u, r⟩
  · rw [startWith_of_rejected haccept] at h
    obtain ⟨herr, hrest⟩ := Prod.mk.inj h
    obtain rfl := Except.error.inj herr
    refine .rejected ?_
    rw [← show (giveBack _ _).1 = e' from congrArg Prod.fst hrest]
    exact giveBack_key _ _
  · rw [startWith_of_accepted haccept] at h
    exact start_failure rfl rfl h

end Cryptoki.Engine
