import Cryptoki.Proofs.Engine.Faults

/-!
# `Cryptoki.Proofs.Engine.FinishAtRest` — asking for the end of an operation that was not started

An operation is to be ended only while it is under way. But an engine at rest may still have a key and
a mode bound: it keeps them when an operation is finished, given up or broken off. If it is asked for a
signature or a verdict then, it does not complain that there is no operation. Just as a part of a
message does, the call starts one with the bound key and mode, and ends it at once, on the empty
message. So the rule holds exactly where there is nothing to start, since no key is bound or the mode
is the other one: there the engine complains of its state, and does nothing.

## Contents
- `Engine.startThen` — a call after an explicit start.
- `Engine.finish_unstartable` — nothing can be started, and nothing is done.
- `Engine.Coherent.finish_eq` — else the call starts an operation as an explicit start does.
- `Engine.finish_started` — an answer comes from an operation that was started.
- `Engine.finish_at_rest` — where the rule holds and where it does not, after any calls.
- `Engine.signed_at_rest` — a signature without a start.
-/

namespace Cryptoki.Engine

variable {τ : Type} [Token τ] {scheme : Scheme} {e : Engine} {key : Key} {mode : OperationMode}
  {request : Request}

/-! ## Nothing to start -/

/-- Without a key, or in the other mode, the call fails and does nothing. -/
theorem finish_unstartable (hfinishes : request.finishes? = some mode)
    (hstate : e.state = .uninitialized) (h : e.key = none ∨ e.mode ≠ some mode) (p : Pool τ) :
    ∃ fault, e.handle request p = (.error (.wrongState fault), e, p) := by
  cases hmode : e.expectMode mode with
  | error err =>
      have hout := handle_of_wrongMode hfinishes hmode p
      rcases expectMode_error hmode with rfl | ⟨bound, rfl⟩
      · exact ⟨_, hout⟩
      · exact ⟨_, hout⟩
  | ok u =>
      have hkey := h.resolve_right (not_not_intro (expectMode_ok hmode))
      rw [handle_of_rest hfinishes hstate hmode, start_unbound (.inl hkey)]
      exact ⟨_, rfl⟩

/-! ## Starting on the way -/

/-- A start with a key, and then, if it succeeds, another call. -/
def startThen (e : Engine) (key : Key) (mode : OperationMode) (request : Request) (p : Pool τ) :
    Except EngineError Answer × Engine × Pool τ :=
  match e.handle (.init key mode) p with
  | (.error err, e, p) => (.error err, e, p)
  | (.ok _, e, p) => e.handle request p

/-- The mode that is bound is the one that is expected. -/
theorem expectMode_bound (hmode : e.mode = some mode) : e.expectMode mode = .ok () := by
  simp only [expectMode, hmode, if_true]

/-- **A call to end an operation starts one as an explicit start does**, in an engine that is
    coherent. -/
theorem Coherent.finish_eq (h : e.Coherent scheme) (hstate : e.state = .uninitialized)
    (hkey : e.key = some key) (hmode : e.mode = some mode)
    (hfinishes : request.finishes? = some mode) (p : Pool τ) :
    e.handle request p = e.startThen key mode request p := by
  rw [handle_of_rest hfinishes hstate (expectMode_bound hmode)]
  simp only [startThen, handle, h.startWith_bound hstate hkey hmode]
  rcases e.start p with ⟨err | u, e', q⟩ <;> rfl

/-- What a call answers comes after the call to the token that has started the operation. -/
theorem finish_started {answer : Answer} (h : e.Coherent scheme) (hstate : e.state = .uninitialized)
    (hkey : e.key = some key) (hmode : e.mode = some mode)
    (hfinishes : request.finishes? = some mode) {p : Pool (Logged τ)}
    (hanswer : (e.handle request p).1 = .ok answer) :
    ∃ session, scheme.startEvent mode session key ∈ (e.handle request p).2.2.token.log := by
  rw [handle_of_rest hfinishes hstate (expectMode_bound hmode)] at hanswer ⊢
  rcases hstart : e.start p with ⟨err | u, e', q⟩
  · rw [hstart] at hanswer
    cases hanswer
  · obtain ⟨session, key', mode', older, hkey', hmode', _, hlog, _⟩ := start_ok_log hstart
    obtain rfl := Option.some.inj (hkey'.symm.trans hkey)
    obtain rfl := Option.some.inj (hmode'.symm.trans hmode)
    obtain ⟨events, hafter, _⟩ := handle_gives (h.start hstate hstart) request q
    refine ⟨session, ?_⟩
    dsimp only
    rw [hafter, hlog, h.scheme_eq]
    exact List.mem_append_right _ List.mem_cons_self

/-! ## After any calls -/

/-- No fault of state is found once there is something to start. -/
theorem finish_not_wrongState (hresolved : scheme.Resolved) (turns : List (Turn τ))
    (hstate : ((ofScheme scheme).after turns).state = .uninitialized)
    (hkey : ((ofScheme scheme).after turns).key = some key)
    (hmode : ((ofScheme scheme).after turns).mode = some mode)
    (hfinishes : request.finishes? = some mode) (p : Pool τ) (fault : StateFault) :
    (((ofScheme scheme).after turns).handle request p).1 ≠ .error (.wrongState fault) := by
  rw [handle_of_rest hfinishes hstate (expectMode_bound hmode)]
  rcases hstart : ((ofScheme scheme).after turns).start p with ⟨err | u, e', q⟩
  · intro hfault
    obtain rfl := Except.error.inj hfault
    exact (start_failure hkey hmode hstart).told.2
  · intro hfault
    obtain ⟨session, key', mode', hsuits, _, hmode', rfl⟩ := start_underWay hresolved turns hstart
    have hexpect : (underWay scheme key' mode' session []).expectMode mode = .ok () :=
      expectMode_bound (hmode'.symm.trans hmode)
    exact (underWay_told hsuits hfinishes hexpect (Prod.ext hfault rfl)).2

/-- **A call to end an operation that was not started.** After any calls, over any token and with
    anything between them, let an engine be at rest, and be asked for a signature or a verdict. If no
    key is bound, or the engine is bound for the other mode, the call fails for the engine's state and
    does nothing: engine and pool are what they were, with the token. If a key and the right mode are
    bound, the call has the same result as an explicit start with them and, if that succeeds, the call
    after it; it leaves the same engine, pool and token, and does not fail for the engine's state. The
    operation that is started has taken in no part of a message. So nothing is answered but for an
    operation that the token was told to start, if not before then by this very call. -/
theorem finish_at_rest {name : String} {mechanism : Mechanism}
    (hresolve : Scheme.resolve name mechanism = .ok scheme) (turns : List (Turn τ))
    (hstate : ((ofScheme scheme).after turns).state = .uninitialized)
    (hfinishes : request.finishes? = some mode) :
    let e := (ofScheme scheme).after turns
    (e.key = none ∨ e.mode ≠ some mode → ∀ p : Pool τ, ∃ fault,
        e.handle request p = (.error (.wrongState fault), e, p))
      ∧ ∀ key, e.key = some key → e.mode = some mode →
        (∀ p : Pool τ, e.handle request p = e.startThen key mode request p
          ∧ ∀ fault, (e.handle request p).1 ≠ .error (.wrongState fault))
        ∧ (∀ (p : Pool τ) (answer : Answer) (e' : Engine) (q : Pool τ),
            e.handle (.init key mode) p = (.ok answer, e', q) →
              ∃ session, e' = underWay scheme key mode session [])
        ∧ ∀ (p : Pool τ) (answer : Answer), (e.handle request p.logged).1 = .ok answer →
            ∃ session, scheme.startEvent mode session key
              ∈ (e.handle request p.logged).2.2.token.log := by
  intro e
  have hresolved := Scheme.resolved_of_resolve hresolve
  have h : e.Coherent scheme := after_coherent (ofScheme_coherent scheme) turns
  refine ⟨finish_unstartable hfinishes hstate, fun key hkey hmode => ⟨?_, ?_, ?_⟩⟩
  · intro p
    exact ⟨h.finish_eq hstate hkey hmode hfinishes p,
      finish_not_wrongState hresolved turns hstate hkey hmode hfinishes p⟩
  · intro p answer e' q hinit
    simp only [handle, h.startWith_bound hstate hkey hmode] at hinit
    rcases hstart : e.start p with ⟨err | u, e'', q'⟩
    · rw [hstart] at hinit
      cases hinit
    · rw [hstart] at hinit
      obtain ⟨session, key', mode', _, hkey', hmode', rfl⟩ := start_underWay hresolved turns hstart
      obtain rfl := Option.some.inj (hkey'.symm.trans hkey)
      obtain rfl := Option.some.inj (hmode'.symm.trans hmode)
      exact ⟨session, (congrArg (·.2.1) hinit).symm⟩
  · intro p answer hanswer
    exact finish_started h hstate hkey hmode hfinishes hanswer

/-- After an operation was given up, asking for a signature starts another one, and asking for a
    verdict does nothing. -/
theorem finish_at_rest_of_givenUp :
    let scheme : Scheme := ⟨.sha1WithEcdsa, .ecdsaSha1, .stream⟩
    let e := (ofScheme scheme).after givenUp
    Scheme.resolve "SHA1withECDSA" .ecdsaSha1 = .ok scheme ∧ e.state = .uninitialized
      ∧ ∀ p : Pool (Software .standard),
        e.handle .sign p = e.startThen storedKey.1 .sign .sign p
          ∧ ∃ fault, e.handle (.verify []) p = (.error (.wrongState fault), e, p) := by
  intro scheme e
  have hresolve : Scheme.resolve "SHA1withECDSA" .ecdsaSha1 = .ok scheme := by decide +kernel
  have hstate : e.state = .uninitialized := by decide +kernel
  have hkey : e.key = some storedKey.1 := by decide +kernel
  have hmode : e.mode = some .sign := by decide +kernel
  refine ⟨hresolve, hstate, fun p => ⟨?_, ?_⟩⟩
  · exact (((finish_at_rest hresolve givenUp hstate rfl).2 _ hkey hmode).1 p).1
  · refine (finish_at_rest hresolve givenUp hstate rfl).1 (.inr ?_) p
    rw [show ((ofScheme scheme).after givenUp).mode = some .sign from hmode]
    decide

/-- A DSA engine that was started for signing and then told to give up, and the pool that is left,
    over a token that makes this block next. -/
def givenUpBefore (block : Bytes) : List (Turn Scripted) × Pool Scripted :=
  let key : Key := ⟨⟨2⟩, .privateKey, .dsa [0xff]⟩
  let token := { ((Scripted.empty none false).addPair block.length).2.2 with
    nextSignature := some block }
  let pool := Pool.empty token {}
  let started := (ofScheme ⟨.sha1WithDsa, .dsaSha1, .stream⟩).handle (.init key .sign) pool
  ([⟨.init key .sign, pool⟩, ⟨.cancel, started.2.2⟩], (started.2.1.handle .cancel started.2.2).2.2)

/-- **The rule is broken.** The engine is at rest, it is neither started nor given a part, and what it
    answers is a signature. -/
theorem signed_at_rest :
    let scheme : Scheme := ⟨.sha1WithDsa, .dsaSha1, .stream⟩
    let turns := givenUpBefore [0x01, 0x01]
    let e := (ofScheme scheme).after turns.1
    Scheme.resolve "SHA1withDSA" .dsaSha1 = .ok scheme ∧ e.state = .uninitialized
      ∧ (e.handle .sign turns.2).1
        = .ok (.signature [0x30, 0x06, 0x02, 0x01, 0x01, 0x02, 0x01, 0x01])
      ∧ ∀ fault, (e.handle .sign turns.2).1 ≠ .error (.wrongState fault) := by
  intro scheme turns e
  have hanswer : (e.handle .sign turns.2).1
      = .ok (.signature [0x30, 0x06, 0x02, 0x01, 0x01, 0x02, 0x01, 0x01]) := by decide +kernel
  refine ⟨by decide +kernel, by decide +kernel, hanswer, fun fault hfault => ?_⟩
  cases hanswer.symm.trans hfault

end Cryptoki.Engine
