import Cryptoki.Proofs.Engine.Implicit
import Cryptoki.Proofs.Engine.Report

/-!
# `Cryptoki.Proofs.Engine.UnderWay` — engines that calls have led to, as they are found

After any calls an engine is initialized or at rest. While it is initialized, all of it is known
from what it was started with and from the parts since. At rest, a call that is to end an operation
starts one first, and then goes as if it had found it; in the wrong mode it does nothing at all.

## Contents
- `Engine.after_underWay`, `Engine.start_underWay` — an engine that is initialized, after any calls
  and after a start.
- `Engine.handle_update_empty`, `Engine.handle_update_gathered`, `Engine.handle_update_streamed` — a
  part of the message.
- `Engine.handle_of_wrongMode` — a call to end an operation in the wrong mode.
- `Engine.finish_of_initialized` — what the engine is left with, in the right one.
- `Engine.handle_of_rest` — a call to end an operation, at rest.
-/

namespace Cryptoki.Engine

variable {τ : Type} [Token τ] {scheme : Scheme} {e : Engine} {request : Request}
  {mode : OperationMode}

/-- An engine that is initialized was started with a key that suits its scheme, and took in some
    parts since. -/
theorem after_underWay (hresolved : scheme.Resolved) (turns : List (Turn τ))
    (hstate : ((ofScheme scheme).after turns).state = .initialized) :
    ∃ session key mode parts, scheme.Suits key
      ∧ (ofScheme scheme).after turns = underWay scheme key mode session parts := by
  have hengine : ((Cycle.start scheme).run turns).engine = (ofScheme scheme).after turns :=
    Cycle.run_engine (Cycle.start scheme) turns
  rw [← hengine] at hstate ⊢
  obtain ⟨session, key, mode, hsuits, hunderWay⟩ := Cycle.run_underWay hresolved turns hstate
  exact ⟨session, key, mode, _, hsuits, hunderWay⟩

/-- So is the engine that a start leads to, without any parts yet. -/
theorem start_underWay {e' : Engine} {p q : Pool τ} (hresolved : scheme.Resolved)
    (turns : List (Turn τ))
    (hstart : ((ofScheme scheme).after turns).start p = (.ok (), e', q)) :
    ∃ session key mode, scheme.Suits key ∧ ((ofScheme scheme).after turns).key = some key
      ∧ ((ofScheme scheme).after turns).mode = some mode
      ∧ e' = underWay scheme key mode session [] := by
  have hstart₀ := ofScheme_coherent scheme
  have hcoherent := after_coherent hstart₀ turns
  have hroomy := after_roomy hstart₀ (fun key hkey => absurd hkey (by simp [ofScheme])) turns
  have hstarted := ((ofScheme scheme).after turns).started p
  rw [hstart] at hstarted
  generalize (ofScheme scheme).after turns = e at *
  cases hstarted with
  | @begun key mode lease lease' q r hkey hmode hobtained hinit =>
      obtain ⟨rfl, _, _⟩ := Lease.operate_cases hinit
      obtain ⟨_, _, haccept⟩ := hcoherent.accepted key hkey
      rw [hcoherent.scheme_eq] at haccept
      refine ⟨lease.session, key, mode,
        ⟨hresolved, (Scheme.family_of_acceptKey haccept).1, hroomy key hkey⟩, hkey, hmode, ?_⟩
      rw [hcoherent.fits.reset_eq_new, hcoherent.scheme_eq, hkey, hmode]
      rfl

/-! ## Parts of the message -/

section

variable {key : Key} {session : SessionId} {parts : List Bytes} {data : Bytes} {p q : Pool τ}

theorem handle_update_empty :
    (underWay scheme key mode session parts).handle (.update []) p
      = (.ok .done, underWay scheme key mode session parts, p) := rfl

theorem handle_update_gathered (hdata : data ≠ []) (hproc : scheme.processing ≠ .stream) :
    (underWay scheme key mode session parts).handle (.update data) p
      = (.ok .done, underWay scheme key mode session (parts ++ [data]), p) := by
  have hproc' : ¬ (underWay scheme key mode session parts).scheme.processing = .stream := hproc
  have htake : (underWay scheme key mode session parts).takeIn data p
      = (.ok (), underWay scheme key mode session (parts ++ [data]), p) := by
    simp only [takeIn, if_neg hproc']
    rw [underWay, underWay, PendingInput.ofParts_append]
  have hupdate : (underWay scheme key mode session parts).update data p
      = (underWay scheme key mode session parts).takeIn data p := if_neg hdata
  simp only [handle, hupdate, htake]
  rfl

theorem handle_update_streamed (hdata : data ≠ []) (hproc : scheme.processing = .stream)
    (hop : (⟨session, true⟩ : Lease).operate (.update mode data) p
      = (.ok (), ⟨session, true⟩, q)) :
    (underWay scheme key mode session parts).handle (.update data) p
      = (.ok .done, underWay scheme key mode session (parts ++ [data]), q) := by
  have hproc' : (underWay scheme key mode session parts).scheme.processing = .stream := hproc
  have hforward : (underWay scheme key mode session parts).forward data p
      = (.ok (), underWay scheme key mode session parts, q) := by
    simp only [forward, underWay]
    rw [hop]
  have htake : (underWay scheme key mode session parts).takeIn data p
      = (.ok (), underWay scheme key mode session (parts ++ [data]), q) := by
    simp only [takeIn, if_pos hproc', hforward]
    rw [underWay, underWay, PendingInput.ofParts_append]
  have hupdate : (underWay scheme key mode session parts).update data p
      = (underWay scheme key mode session parts).takeIn data p := if_neg hdata
  simp only [handle, hupdate, htake]
  rfl

end

/-! ## Calls that end an operation -/

/-- The mode may not be the one that is expected, or there may be none. -/
theorem expectMode_error {err : EngineError} (h : e.expectMode mode = .error err) :
    err = .wrongState .noKeyBound ∨ ∃ bound, err = .wrongState (.initializedFor bound) := by
  unfold expectMode at h
  split at h
  · exact .inl (Except.error.inj h).symm
  · next bound _ =>
      split at h
      · cases h
      · exact .inr ⟨bound, (Except.error.inj h).symm⟩

/-- In the wrong mode nothing is done. -/
theorem handle_of_wrongMode {err : EngineError} (hfinishes : request.finishes? = some mode)
    (hmode : e.expectMode mode = .error err) (p : Pool τ) :
    e.handle request p = (.error err, e, p) := by
  have htake : e.takeLease mode p = (.error err, e, p) := by
    simp only [takeLease, hmode]
  cases request with
  | init | update | cancel => cases hfinishes
  | sign =>
      obtain rfl := Option.some.inj hfinishes
      simp only [handle, sign, htake]
      rfl
  | verify signature =>
      obtain rfl := Option.some.inj hfinishes
      simp only [handle, verify, htake]
      rfl

/-- Which mode is expected does not depend on anything but the mode. -/
theorem expectMode_congr {e' : Engine} (h : e'.mode = e.mode) (mode : OperationMode) :
    e'.expectMode mode = e.expectMode mode := by
  unfold expectMode
  rw [h]

/-- In its own mode, an operation under way is over, and the engine at rest with its key. -/
theorem finish_of_initialized {lease : Lease} (hstate : e.state = .initialized)
    (hlease : e.lease = some lease) (hmode : e.mode = some mode)
    (hfinishes : request.finishes? = some mode) (p : Pool τ) :
    ∃ pending, (e.handle request p).2.1
      = { e with state := .uninitialized, lease := none, pending } := by
  have hfound {e' : Engine} {q : Pool τ} (hstart : e.ensureStarted p = (.ok (), e', q)) :
      e' = e := by
    rw [ensureStarted, hstate] at hstart
    exact (congrArg (·.2.1) hstart).symm
  have hfinished := finished (e := e) p hfinishes
  generalize (e.handle request p).2 = out at hfinished ⊢
  cases hfinished with
  | wrongMode herr =>
      rw [expectMode, hmode] at herr
      dsimp only at herr
      rw [if_pos rfl] at herr
      cases herr
  | notStarted _ hrest => cases hrest.symm.trans hstate
  | leaseless _ hstart hnone =>
      rw [hfound hstart] at hnone
      cases hnone.symm.trans hlease
  | @ended e' q r _ lease' pending _ hstart =>
      rw [hfound hstart]
      exact ⟨pending, rfl⟩

/-- At rest, an operation is started for the last call. -/
theorem takeLease_of_rest (hstate : e.state = .uninitialized)
    (hmode : e.expectMode mode = .ok ()) (p : Pool τ) :
    e.takeLease mode p =
      match e.start p with
      | (.error err, e, p) => (.error err, e, p)
      | (.ok _, e, p) => e.takeLease mode p := by
  rw [takeLease, hmode, ensureStarted, hstate]
  dsimp only
  rcases hstart : e.start p with ⟨err | u, e', q⟩
  · rfl
  · -- the engine has the same mode, and finds an operation now
    obtain ⟨_, hsame, hstate'⟩ := start_ok hstart
    simp only [takeLease, expectMode_congr hsame mode, hmode, ensureStarted, hstate']

/-- **At rest a call to end an operation starts one first**, and is then answered as if it had found
    it under way. -/
theorem handle_of_rest (hfinishes : request.finishes? = some mode)
    (hstate : e.state = .uninitialized) (hmode : e.expectMode mode = .ok ()) (p : Pool τ) :
    e.handle request p =
      match e.start p with
      | (.error err, e, p) => (.error err, e, p)
      | (.ok _, e, p) => e.handle request p := by
  have htake := takeLease_of_rest hstate hmode p
  cases request with
  | init | update | cancel => cases hfinishes
  | sign =>
      obtain rfl := Option.some.inj hfinishes
      simp only [handle, sign, htake]
      rcases e.start p with ⟨err | u, e', q⟩ <;> rfl
  | verify signature =>
      obtain rfl := Option.some.inj hfinishes
      simp only [handle, verify, htake]
      rcases e.start p with ⟨err | u, e', q⟩ <;> rfl

end Cryptoki.Engine
