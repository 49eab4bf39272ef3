import Cryptoki.Engine.Cancel
import Cryptoki.Proofs.Engine.Finish

/-!
# `Cryptoki.Proofs.Engine.WindUp` — how an operation that is given up is ended on the token

An operation that is given up is ended with the input so far, for the key and the mode that it was
started with. Where the message is passed on or digested there always is such input, in the very
form in which the token would get it in the end; only gathered input may be missing, since none was
given or too much. So winding up fails for this reason, or because the token says so.

## Contents
- `Scheme.lastInput?` — the input that the token lacks, at the end of a message.
- `Engine.windUpInput_closing` — an operation is wound up with that.
- `Engine.windUp_called`, `Engine.windUp_silent` — what winding up comes to.
- `Engine.abandon_of_windUp` — what comes of it where it succeeds.
- `Engine.windUp_error` — why winding up fails.
-/

namespace Cryptoki

/-- What the token lacks at the end of a message: nothing, where the message was passed on, and else
    the message in the form that the scheme presents. -/
def Scheme.lastInput? (scheme : Scheme) (key : Key) (message : Bytes) : Option Bytes :=
  match scheme.processing with
  | .stream => none
  | _ => some (scheme.presented key message)

namespace Engine

variable {τ : Type} [Token τ] {scheme : Scheme} {e : Engine} {key : Key} {mode : OperationMode}
  {session : SessionId} {parts : List Bytes} {lease lease' : Lease} {p q : Pool τ}

/-! ## The input -/

/-- The form of a digest does not depend on the pending input. -/
theorem tokenForm_pending (e : Engine) (pending : PendingInput) (data : Bytes) :
    ({ e with pending } : Engine).tokenForm data = e.tokenForm data := by
  simp only [tokenForm]

/-- Where the message is digested here, winding up takes the input of the last call. -/
theorem windUpInput_of_digest {a : DigestAlgorithm} (hproc : e.scheme.processing = .digestHere a)
    (hfits : e.pending.Fits e.scheme.processing) :
    e.windUpInput.1 = e.finalInput.1.map some := by
  rw [hproc] at hfits
  cases hpending : e.pending with
  | stream count => rw [hpending] at hfits; cases hfits
  | raw buffer rule overflow => rw [hpending] at hfits; cases hfits
  | digest md count =>
      rcases hfinish : md.finish with ⟨hash, md'⟩
      have hwindUp : e.pending.windUpInput = (some hash, .digest md' 0) := by
        rw [hpending, PendingInput.windUpInput, hfinish]
      have htake : e.pending.takeDigest = (.ok hash, .digest md' 0) := by
        rw [hpending, PendingInput.takeDigest, hfinish]
      simp only [windUpInput, finalInput, hproc, hwindUp, htake, tokenForm_pending]

/-- An operation is wound up with what the token lacks of its message, whatever was taken in. -/
theorem windUpInput_closing (mode : OperationMode) (session : SessionId) (parts : List Bytes)
    (hsuits : scheme.Suits key) (hraw : ∀ rule, scheme.processing ≠ .raw rule) :
    (closing scheme key mode session parts).windUpInput.1
      = .ok (scheme.lastInput? key parts.flatten) := by
  cases hproc : scheme.processing with
  | stream =>
      have hstream : (closing scheme key mode session parts).scheme.processing = .stream := hproc
      simp only [windUpInput, hstream, Scheme.lastInput?, hproc]
  | raw rule => exact absurd hproc (hraw rule)
  | digestHere a =>
      have hinput := finalInput_closing mode session parts hsuits (by simp [hproc])
      simp only [Scheme.lengthFault?, hproc] at hinput
      rw [windUpInput_of_digest hproc (PendingInput.fits_ofParts scheme.processing parts), hinput]
      simp only [Scheme.lastInput?, hproc]
      rfl

/-! ## Winding up -/

/-- With input, one call is made, and its answer decides. -/
theorem windUp_called {input : Option Bytes}
    {result : Except ReturnCode (e.windUpPrimitive mode input).Result} (hmode : e.mode = some mode)
    (hinput : e.windUpInput.1 = .ok input)
    (hop : lease.operate (e.windUpPrimitive mode input) p = (result, lease', q)) :
    ∃ pending, e.windUp lease p = (windUpResult mode result, { e with pending }, lease', q) := by
  obtain ⟨pending, hengine, _⟩ := e.windUpInput_engine
  have hwindUp : e.windUpInput = (.ok input, { e with pending }) := Prod.ext hinput hengine
  -- what is called does not depend on the pending input
  have hop' : lease.operate (({ e with pending } : Engine).windUpPrimitive mode input) p
      = (result, lease', q) := hop
  refine ⟨pending, ?_⟩
  unfold windUp
  split
  · next hnone => cases hnone.symm.trans hmode
  · next mode' hmode' =>
      obtain rfl := Option.some.inj (hmode'.symm.trans hmode)
      rw [hwindUp]
      dsimp only
      rw [hop']
      rfl

/-- Without input, none is made. -/
theorem windUp_silent {err : EngineError} (hmode : e.mode = some mode)
    (hinput : e.windUpInput.1 = .error err) (lease : Lease) (p : Pool τ) :
    ∃ pending, e.windUp lease p = (.error err, { e with pending }, lease, p) := by
  obtain ⟨pending, hengine, _⟩ := e.windUpInput_engine
  have hwindUp : e.windUpInput = (.error err, { e with pending }) := Prod.ext hinput hengine
  refine ⟨pending, ?_⟩
  simp only [windUp, hmode, hwindUp]

/-- A session whose operation is wound up well is kept. -/
theorem abandon_of_windUp {e' : Engine} (hstate : e.state = .initialized)
    (hlease : e.lease = some lease) (hactive : lease.active = true)
    (howns : (p.config.explicitCancel && lease.ownsObjects p) = true)
    (hwindUp : ({ e with state := .uninitialized, lease := none } : Engine).windUp lease p
      = (.ok (), e', lease', q)) : e.abandon p = ({ e' with lease := some lease' }, q) := by
  simp only [abandon, hstate, hlease, hactive, howns, if_true, hwindUp]

/-- Input can be missing where it is gathered, and nowhere else. -/
theorem windUpInput_error {err : EngineError} (hsuits : scheme.Suits key)
    (h : (closing scheme key mode session parts).windUpInput.1 = .error err) :
    (∃ rule, scheme.processing = .raw rule) ∧ err = .wrongState .noWindUpInput := by
  by_cases hraw : ∃ rule, scheme.processing = .raw rule
  · refine ⟨hraw, ?_⟩
    obtain ⟨rule, hproc⟩ := hraw
    have hproc' : (closing scheme key mode session parts).scheme.processing = .raw rule := hproc
    simp only [windUpInput, hproc'] at h
    split at h
    · exact (Except.error.inj h).symm
    · -- gathered input is given as it is
      rw [tokenForm, Scheme.wrappedDigest_of_raw hproc'] at h
      cases h
  · have hinput := windUpInput_closing mode session parts hsuits
      fun rule hproc => hraw ⟨rule, hproc⟩
    cases hinput.symm.trans h

/-- A signature that is made is thrown away. -/
theorem windUpResult_of_signature {result : Except ReturnCode Bytes}
    (h : ∃ block, result = .ok block) : windUpResult .sign result = .ok () := by
  obtain ⟨block, rfl⟩ := h
  rfl

/-- So is a verdict, be it a denial. -/
theorem windUpResult_of_verdict {result : Except ReturnCode Unit}
    (h : ∀ code, result = .error code → code.deniesSignature = true) :
    windUpResult .verify result = .ok () := by
  cases result with
  | ok u => rfl
  | error code => exact if_pos ⟨rfl, h code rfl⟩

theorem windUpResult_error {α : Type} {result : Except ReturnCode α} {err : EngineError}
    (h : windUpResult mode result = .error err) : ∃ code, err = .tokenFailure .cancel code := by
  unfold windUpResult at h
  split at h
  · cases h
  · split at h
    · cases h
    · exact ⟨_, (Except.error.inj h).symm⟩

/-- **Winding an operation up fails for want of gathered input, or because the token says so.** -/
theorem windUp_error {err : EngineError} (hsuits : scheme.Suits key)
    (h : ((closing scheme key mode session parts).windUp lease p).1 = .error err) :
    ((∃ rule, scheme.processing = .raw rule) ∧ err = .wrongState .noWindUpInput)
      ∨ ∃ code, err = .tokenFailure .cancel code := by
  cases hinput : (closing scheme key mode session parts).windUpInput.1 with
  | error cause =>
      obtain ⟨pending, hwindUp⟩ :=
        windUp_silent (e := closing scheme key mode session parts) rfl hinput lease p
      rw [hwindUp] at h
      obtain rfl := Except.error.inj h
      exact .inl (windUpInput_error hsuits hinput)
  | ok input =>
      rcases hop : lease.operate
        ((closing scheme key mode session parts).windUpPrimitive mode input) p
        with ⟨result, lease', q⟩
      obtain ⟨pending, hwindUp⟩ := windUp_called rfl hinput hop
      rw [hwindUp] at h
      exact .inr (windUpResult_error h)

end Engine

end Cryptoki
