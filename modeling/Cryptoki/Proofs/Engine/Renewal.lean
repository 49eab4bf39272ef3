import Cryptoki.Proofs.Engine.UnderWay

/-!
# `Cryptoki.Proofs.Engine.Renewal` — an engine at rest has no use for the input it is left with

Whatever an operation has left in an engine stays there until the next one is started, and is
forgotten then. No call looks at it before. So an engine at rest does in all things what one does
that was just made, and bound to the same key in the same mode.

## Contents
- `Engine.renew` — the engine without what it is left with.
- `Engine.start_renew` — a start forgets.
- `Engine.Renews`, `Engine.Alike`, `Engine.handle_alike` — the two engines, call by call.
- `Engine.Cycle.bound`, `Engine.Cycle.run_alike` — the two, in any run of calls.
-/

namespace Cryptoki.Engine

variable {τ : Type} [Token τ] {scheme : Scheme} {e f : Engine} {key : Key} {mode : OperationMode}
  {request : Request} {p : Pool τ}

/-- The engine without the input that it is left with. -/
def renew (e : Engine) : Engine := { e with pending := .new e.scheme.processing }

/-! ## Starting -/

/-- What the engine was left with is forgotten by a start that succeeds, and plays no part in one
    that fails. -/
theorem start_renew (hfits : e.pending.Fits e.scheme.processing) (p : Pool τ) :
    e.renew.start p =
      match e.start p with
      | (.error err, e, p) => (.error err, e.renew, p)
      | (.ok u, e, p) => (.ok u, e, p) := by
  obtain ⟨scheme, key, mode, l, pending, state⟩ := e
  have hreset : pending.reset = .new scheme.processing := hfits.reset_eq_new
  have hreset' : (PendingInput.new scheme.processing).reset = .new scheme.processing :=
    (PendingInput.fits_new scheme.processing).reset_eq_new
  cases key with
  | none => rfl
  | some key =>
      cases mode with
      | none => rfl
      | some mode =>
          -- both get the same session, and the same answer to the same call
          simp only [start, renew, obtainLease]
          split
          · rfl
          · split
            · simp only [afterRefusal]
              split <;> rfl
            · simp only [hreset, hreset']

/-! ## Every call -/

/-- The other engine is the same, or both are at rest, and the other one lacks the input that this
    one is left with. -/
inductive Renews (e : Engine) : Engine → Prop
  | same : Renews e e
  | rest (hstate : e.state = .uninitialized) : Renews e e.renew

/-- Two calls come to the same, and leave two such engines. -/
structure Alike {α : Type} (out out' : Except EngineError α × Engine × Pool τ) : Prop where
  answer : out'.1 = out.1
  engine : out.2.1.Renews out'.2.1
  pool : out'.2.2 = out.2.2

omit [Token τ] in
theorem Alike.map {α β : Type} {out out' : Except EngineError α × Engine × Pool τ}
    (h : Alike out out') (f : α → β) : Alike (out.1.map f, out.2) (out'.1.map f, out'.2) :=
  ⟨by rw [h.answer], h.engine, h.pool⟩

/-- The two do the same when they are started. -/
theorem start_alike (hfits : e.pending.Fits e.scheme.processing) (hstate : e.state = .uninitialized)
    (p : Pool τ) : Alike (e.start p) (e.renew.start p) := by
  rw [start_renew hfits]
  rcases hstart : e.start p with ⟨err | u, e', q⟩
  · exact ⟨rfl, .rest ((start_error hstart).trans hstate), rfl⟩
  · exact ⟨rfl, .same, rfl⟩

/-- So they do when they are started for something. -/
theorem start_then_alike (hfits : e.pending.Fits e.scheme.processing)
    (hstate : e.state = .uninitialized) {α : Type}
    (next : Engine → Pool τ → Except EngineError α × Engine × Pool τ) (p : Pool τ) :
    Alike
      (match e.start p with
        | (.error err, e, p) => (.error err, e, p)
        | (.ok _, e, p) => next e p)
      (match e.renew.start p with
        | (.error err, e, p) => (.error err, e, p)
        | (.ok _, e, p) => next e p) := by
  rw [start_renew hfits]
  rcases hstart : e.start p with ⟨err | u, e', q⟩
  · exact ⟨rfl, .rest ((start_error hstart).trans hstate), rfl⟩
  · exact ⟨rfl, .same, rfl⟩

/-- What comes of checking a key does not depend on the input that the engine is left with. -/
theorem accept_renew (e : Engine) (key : Key) (mode : OperationMode) (p : Pool τ) :
    e.renew.accept key mode p = e.accept key mode p := by
  have hscheme : e.renew.scheme = e.scheme := rfl
  have hsize : e.renew.acceptSize key p = e.acceptSize key p := by
    unfold acceptSize
    rw [hscheme]
    rcases p.call (.mechanismInfo e.scheme.mechanism) with ⟨code | info, q⟩ <;> rfl
  unfold accept
  rw [hsize]
  rfl

/-- With a key, too, the two do the same when they are started. -/
theorem startWith_alike (h : e.Coherent scheme) (hstate : e.state = .uninitialized) (key : Key)
    (mode : OperationMode) (p : Pool τ) :
    Alike (e.startWith key mode p) (e.renew.startWith key mode p) := by
  have hstate' : e.renew.state = .uninitialized := hstate
  have hlease := h.idle hstate
  have hsame := e.accept_renew key mode p
  rcases haccept : e.accept key mode p with ⟨fault | u, q⟩
  · have hback := giveBack_of_none (e := { e with key := none }) hlease q
    have hback' := giveBack_of_none (e := { e.renew with key := none }) hlease q
    rw [startWith_of_rejected haccept, startWith_of_rejected (hsame.trans haccept),
      abandon_of_rest hstate, abandon_of_rest hstate']
    dsimp only
    rw [hback, hback']
    exact ⟨rfl, .rest rfl, rfl⟩
  · rw [startWith_of_accepted haccept, startWith_of_accepted (hsame.trans haccept),
      abandon_of_rest hstate, abandon_of_rest hstate']
    exact start_alike (e := { e with key := some key, mode := some mode }) h.fits hstate q

/-- The calls of the two come to the same. -/
theorem handle_alike (h : e.Coherent scheme) (hrenews : e.Renews f) (request : Request)
    (p : Pool τ) : Alike (e.handle request p) (f.handle request p) := by
  cases hrenews with
  | same => exact ⟨rfl, .same, rfl⟩
  | rest hstate =>
      have hstate' : e.renew.state = .uninitialized := hstate
      have hfinish : ∀ {mode}, request.finishes? = some mode →
          Alike (e.handle request p) (e.renew.handle request p) := by
        intro mode hfinishes
        have hsame : e.renew.expectMode mode = e.expectMode mode := rfl
        cases hmode : e.expectMode mode with
        | error err =>
            rw [handle_of_wrongMode hfinishes hmode,
              handle_of_wrongMode hfinishes (hsame.trans hmode)]
            exact ⟨rfl, .rest hstate, rfl⟩
        | ok u =>
            rw [handle_of_rest hfinishes hstate hmode,
              handle_of_rest hfinishes hstate' (hsame.trans hmode)]
            exact start_then_alike h.fits hstate _ p
      cases request with
      | init key mode => exact (startWith_alike h hstate key mode p).map _
      | update data =>
          rw [handle_update_of_rest hstate, handle_update_of_rest hstate']
          exact start_then_alike h.fits hstate _ p
      | sign => exact hfinish rfl
      | verify signature => exact hfinish rfl
      | cancel =>
          have hlease := h.idle hstate
          simp only [handle, cancel, abandon_of_rest hstate, abandon_of_rest hstate',
            giveBack_of_none hlease, giveBack_of_none (e := e.renew) hlease]
          exact ⟨rfl, .rest rfl, rfl⟩

namespace Cycle

variable {c d : Cycle}

/-- An engine that was made and bound to a key in a mode, and has made no calls. -/
def bound (scheme : Scheme) (key : Key) (mode : OperationMode) : Cycle :=
  ⟨{ ofScheme scheme with key := some key, mode := some mode }, [], []⟩

/-- **Whatever the two are asked for, they answer the same and make the same calls.** -/
theorem run_alike (hcoherent : c.engine.Coherent scheme) (h : c.engine.Renews d.engine)
    (turns : List (Turn τ)) (turn : Turn τ) :
    (c.run turns).answer turn = (d.run turns).answer turn
      ∧ (c.run turns).events turn = (d.run turns).events turn := by
  induction turns generalizing c d with
  | nil =>
      have halike := handle_alike hcoherent h turn.request turn.pool.logged
      refine ⟨?_, ?_⟩
      · rw [answer_eq, answer_eq]
        exact halike.answer.symm
      · exact congrArg (·.token.log) halike.pool.symm
  | cons first turns ih =>
      have halike := handle_alike hcoherent h first.request first.pool.logged
      exact ih (handle_coherent hcoherent first.request first.pool.logged) halike.engine

end Cycle

end Cryptoki.Engine
