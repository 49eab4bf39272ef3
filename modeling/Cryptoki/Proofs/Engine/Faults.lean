import Cryptoki.Proofs.Engine.UnderWay
import Cryptoki.Proofs.Engine.WindUp

/-!
# `Cryptoki.Proofs.Engine.Faults` — the faults of state that callers are told of

An engine looks for a key, a mode, a session and the right kind of input wherever it needs them. All
but three of these looks are in vain: a key may not be bound, or the mode may be the other one, and
whatever else is needed is there. Nor does preparing data for the token ever fail: how much a padded
block has to hold can always be told when a key is bound, and its size was checked against that. The
three faults that are left are found before anything is done.

## Contents
- `Engine.toldFaults`, `EngineError.Told` — the errors that callers may be told of.
- `Engine.start_told`, `Engine.update_told`, `Engine.finish_told` — they are all that calls end
  with.
- `Engine.faults` — faults of state, in any run of calls.
-/

namespace Cryptoki

/-- The faults of state, in words, that callers may be told of. -/
def Engine.toldFaults : List String :=
  ["no key bound", "engine initialized for signing", "engine initialized for verification"]

/-- Callers may be told of the error; and of a fault of state only if nothing was done. -/
def EngineError.Told (nothingDone : Prop) : EngineError → Prop
  | .encoding _ => False
  | .wrongState fault => fault.message ∈ Engine.toldFaults ∧ nothingDone
  | _ => True

theorem EngineError.Told.mono {err : EngineError} {P Q : Prop} (h : err.Told P) (himp : P → Q) :
    err.Told Q := by
  cases err with
  | wrongState fault => exact ⟨h.1, himp h.2⟩
  | _ => exact h

namespace Engine

variable {τ : Type} [Token τ] {scheme : Scheme} {e e' : Engine} {p q : Pool τ} {err : EngineError}
  {key : Key} {mode : OperationMode}

/-! ## Starting -/

/-- A start with a key and a mode finds no fault of state. -/
theorem StartFailure.told (h : StartFailure key mode e err) : err.Told False := by
  cases h <;> trivial

/-- Without one of them, it finds that no key is bound, and does nothing. -/
theorem start_told (h : e.start p = (.error err, e', q)) : err.Told ((e', q) = (e, p)) := by
  by_cases hnone : e.key = none ∨ e.mode = none
  · rw [start_unbound hnone] at h
    obtain ⟨hsame, hrest⟩ := Prod.mk.inj h
    obtain rfl := Except.error.inj hsame
    exact ⟨List.mem_cons_self, hrest.symm⟩
  · obtain ⟨key, hkey⟩ := Option.ne_none_iff_exists'.mp fun h => hnone (.inl h)
    obtain ⟨mode, hmode⟩ := Option.ne_none_iff_exists'.mp fun h => hnone (.inr h)
    exact (start_failure hkey hmode h).told.mono False.elim

/-! ## Parts of the message -/

theorem update_told (h : e.Coherent scheme) {data : Bytes} {out : Engine × Pool τ}
    (hupdate : e.update data p = (.error err, out)) : err.Told (out = (e, p)) := by
  have hupdated := h.updated data p
  rw [hupdate] at hupdated
  cases hupdated with
  | notStarted _ hstart => exact start_told hstart
  | aborted => trivial

/-! ## Ending an operation -/

theorem expectMode_told (h : e.expectMode mode = .error err) : err.Told True := by
  rcases expectMode_error h with rfl | ⟨bound, rfl⟩
  · exact ⟨List.mem_cons_self, trivial⟩
  · exact ⟨by cases bound <;> decide, trivial⟩

theorem signReport_told {operation : Operation} {result : Except ReturnCode Bytes}
    (h : signReport scheme operation result = .error err) : err.Told False := by
  cases result with
  | error code =>
      obtain rfl := Except.error.inj h
      trivial
  | ok block =>
      have hencode : encodeSignature scheme block = .error err := h
      unfold encodeSignature at hencode
      split at hencode
      · cases hder : SignatureValue.derOfBlock block with
        | ok d =>
            rw [hder] at hencode
            cases hencode
        | error cause =>
            rw [hder] at hencode
            obtain rfl := Except.error.inj hencode
            trivial
      · cases hencode

theorem verdictOf_told {operation : Operation} {result : Except ReturnCode Unit}
    (h : verdictOf operation result = .error err) : err.Told False := by
  unfold verdictOf at h
  split at h
  · cases h
  · split at h
    · cases h
    · obtain rfl := Except.error.inj h
      trivial

variable {session : SessionId} {parts : List Bytes}

/-- An operation under way is ended without a fault of state. -/
theorem sign_told (hsuits : scheme.Suits key)
    (h : ((underWay scheme key .sign session parts).handle .sign p).1 = .error err) :
    err.Told False := by
  cases hfault : scheme.lengthFault? parts.flatten.length with
  | some rule =>
      obtain ⟨e', hsign⟩ := sign_wrongLength hsuits hfault session p
      rw [hsign] at h
      obtain rfl := Except.error.inj h
      trivial
  | none =>
      by_cases hproc : scheme.processing = .stream
      · rcases hop : (⟨session, true⟩ : Lease).operate (.signFinal scheme.expectedLength) p
          with ⟨result, lease', q⟩
        obtain ⟨e', hsign⟩ := sign_streamed key parts hproc hop
        rw [hsign] at h
        exact signReport_told (map_error h)
      · rcases hop : (⟨session, true⟩ : Lease).operate
          (.sign (scheme.presented key parts.flatten)) p with ⟨result, lease', q⟩
        obtain ⟨e', hsign⟩ := sign_gathered hsuits hproc hfault hop
        rw [hsign] at h
        exact signReport_told (map_error h)

theorem verify_told {signature : Bytes} (hsuits : scheme.Suits key)
    (h : ((underWay scheme key .verify session parts).handle (.verify signature) p).1
      = .error err) : err.Told False := by
  cases hdecode : decodeSignature scheme signature with
  | error cause =>
      obtain ⟨e', hverify⟩ := verify_unread hdecode key session parts p
      rw [hverify] at h
      cases h
  | ok block =>
      cases hfault : scheme.lengthFault? parts.flatten.length with
      | some rule =>
          obtain ⟨e', hverify⟩ := verify_wrongLength hsuits hdecode hfault session p
          rw [hverify] at h
          obtain rfl := Except.error.inj h
          trivial
      | none =>
          by_cases hproc : scheme.processing = .stream
          · rcases hop : (⟨session, true⟩ : Lease).operate (.verifyFinal block) p
              with ⟨result, lease', q⟩
            obtain ⟨e', hverify⟩ := verify_streamed key parts hdecode hproc hop
            rw [hverify] at h
            exact verdictOf_told (map_error h)
          · rcases hop : (⟨session, true⟩ : Lease).operate
              (.verify (scheme.presented key parts.flatten) block) p with ⟨result, lease', q⟩
            obtain ⟨e', hverify⟩ := verify_gathered hsuits hdecode hproc hfault hop
            rw [hverify] at h
            exact verdictOf_told (map_error h)

/-- So is one that is ended in its own mode, whichever it is. -/
theorem underWay_told {request : Request} {mode' : OperationMode} {out : Engine × Pool τ}
    (hsuits : scheme.Suits key) (hfinishes : request.finishes? = some mode')
    (hmode : (underWay scheme key mode session parts).expectMode mode' = .ok ())
    (h : (underWay scheme key mode session parts).handle request p = (.error err, out)) :
    err.Told False := by
  obtain rfl := Option.some.inj (expectMode_ok hmode)
  cases request with
  | init | update | cancel => cases hfinishes
  | sign =>
      obtain rfl := Option.some.inj hfinishes
      exact sign_told hsuits (congrArg Prod.fst h)
  | verify signature =>
      obtain rfl := Option.some.inj hfinishes
      exact verify_told hsuits (congrArg Prod.fst h)

/-- A call to end an operation, after any calls. -/
theorem finish_told (hresolved : scheme.Resolved) (turns : List (Turn τ)) {request : Request}
    {out : Engine × Pool τ} (hfinishes : request.finishes? = some mode)
    (h : ((ofScheme scheme).after turns).handle request p = (.error err, out)) :
    err.Told (out = ((ofScheme scheme).after turns, p)) := by
  have hunderWay := after_underWay hresolved turns
  have hstarted := fun e' q => @start_underWay _ _ scheme e' p q hresolved turns
  generalize (ofScheme scheme).after turns = e at h hunderWay hstarted ⊢
  cases hmode : e.expectMode mode with
  | error err' =>
      rw [handle_of_wrongMode hfinishes hmode] at h
      obtain ⟨hsame, rfl⟩ := Prod.mk.inj h
      obtain rfl := Except.error.inj hsame
      exact (expectMode_told hmode).mono fun _ => rfl
  | ok u =>
      cases hstate : e.state with
      | initialized =>
          obtain ⟨session, key, mode', parts, hsuits, rfl⟩ := hunderWay hstate
          exact (underWay_told hsuits hfinishes hmode h).mono False.elim
      | uninitialized =>
          rw [handle_of_rest hfinishes hstate hmode] at h
          rcases hstart : e.start p with ⟨err' | u, e', q⟩
          · rw [hstart] at h
            obtain ⟨hsame, rfl⟩ := Prod.mk.inj h
            obtain rfl := Except.error.inj hsame
            exact start_told hstart
          · rw [hstart] at h
            rw [← expectMode_congr (start_ok hstart).2.1 mode] at hmode
            obtain ⟨session, key, mode', hsuits, _, _, rfl⟩ := hstarted e' q hstart
            exact (underWay_told hsuits hfinishes hmode h).mono False.elim

/-! ## Every call -/

/-- Callers are told of these errors only, whatever they ask for. -/
theorem handle_told (hresolved : scheme.Resolved) (turns : List (Turn τ)) {request : Request}
    {out : Engine × Pool τ}
    (h : ((ofScheme scheme).after turns).handle request p = (.error err, out)) :
    err.Told (out = ((ofScheme scheme).after turns, p)) := by
  cases request with
  | init key mode =>
      rcases hstart : ((ofScheme scheme).after turns).startWith key mode p with ⟨result, rest⟩
      simp only [handle, hstart] at h
      obtain rfl := map_error (congrArg Prod.fst h)
      exact (startWith_error hstart).told.mono False.elim
  | update data =>
      have hcoherent : ((ofScheme scheme).after turns).Coherent scheme :=
        after_coherent (ofScheme_coherent scheme) turns
      rcases hupdate : ((ofScheme scheme).after turns).update data p with ⟨result, rest⟩
      simp only [handle, hupdate] at h
      obtain rfl := map_error (congrArg Prod.fst h)
      obtain rfl : rest = out := congrArg Prod.snd h
      exact update_told hcoherent hupdate
  | sign => exact finish_told hresolved turns rfl h
  | verify signature => exact finish_told hresolved turns rfl h
  | cancel => cases congrArg Prod.fst h

/-- **The faults of state that callers are told of.** After any calls, over any token and with
    anything between them, no call fails because data could not be prepared for the token, and a
    call that fails for the engine's state says that no key is bound, or which mode the engine is
    in. Such a call has done nothing: engine and pool are what they were, with the token and all its
    calls. An operation that is given up is not wound up if it has no gathered input, or if the
    token says so, and for no other reason. -/
theorem faults {name : String} {mechanism : Mechanism}
    (hresolve : Scheme.resolve name mechanism = .ok scheme) (turns : List (Turn τ)) :
    let e := (ofScheme scheme).after turns
    (∀ (request : Request) (p : Pool τ),
        (∀ cause, (e.handle request p).1 ≠ .error (.encoding cause))
          ∧ ∀ fault, (e.handle request p).1 = .error (.wrongState fault) →
            fault.message ∈ ["no key bound", "engine initialized for signing",
                "engine initialized for verification"]
              ∧ (e.handle request p).2 = (e, p))
      ∧ (e.state = .initialized → ∀ (lease : Lease) (p : Pool τ) (err : EngineError),
          ({ e with state := .uninitialized, lease := none }.windUp lease p).1 = .error err →
            ((∃ rule, scheme.processing = .raw rule) ∧ err = .wrongState .noWindUpInput)
              ∨ ∃ code, err = .tokenFailure .cancel code) := by
  intro e
  have hresolved := Scheme.resolved_of_resolve hresolve
  refine ⟨?_, ?_⟩
  · intro request p
    have htold : ∀ err, (e.handle request p).1 = .error err →
        err.Told ((e.handle request p).2 = (e, p)) :=
      fun err herr => handle_told hresolved turns (Prod.ext herr rfl)
    exact ⟨fun cause herr => htold _ herr, fun fault herr => htold _ herr⟩
  · intro hstate lease p err herr
    obtain ⟨session, key, mode, parts, hsuits, hunderWay⟩ := after_underWay hresolved turns hstate
    rw [show e = underWay scheme key mode session parts from hunderWay] at herr
    exact windUp_error hsuits herr

/-- An engine that has begun to sign a message, and has taken in a part of it. -/
def begun : List (Turn (Software .standard)) :=
  let pool := Pool.empty storedKey.2 {}
  let started := (ofScheme ⟨.sha1WithEcdsa, .ecdsa, .digestHere .sha1⟩).handle
    (.init storedKey.1 .sign) pool
  [⟨.init storedKey.1 .sign, pool⟩, ⟨.update [1], started.2.2⟩]

/-- It says that it is signing when it is asked for a verdict, and goes on with its message. -/
theorem faults_of_begun :
    let scheme : Scheme := ⟨.sha1WithEcdsa, .ecdsa, .digestHere .sha1⟩
    let e := (ofScheme scheme).after begun
    Scheme.resolve "SHA1withECDSA" .ecdsa = .ok scheme ∧ e.state = .initialized
      ∧ ∀ p : Pool (Software .standard),
        (e.handle (.verify []) p).1 = .error (.wrongState (.initializedFor .sign))
          ∧ (e.handle (.verify []) p).2 = (e, p) := by
  intro scheme e
  have hresolve : Scheme.resolve "SHA1withECDSA" .ecdsa = .ok scheme := by decide +kernel
  have hstate : e.state = .initialized := by decide +kernel
  have hmode : e.expectMode .verify = .error (.wrongState (.initializedFor .sign)) := by
    decide +kernel
  refine ⟨hresolve, hstate, fun p => ?_⟩
  have hanswer : (e.handle (.verify []) p).1 = .error (.wrongState (.initializedFor .sign)) := by
    rw [handle_of_wrongMode rfl hmode]
  exact ⟨hanswer, (((faults hresolve begun).1 (.verify []) p).2 _ hanswer).2⟩

end Engine

end Cryptoki
