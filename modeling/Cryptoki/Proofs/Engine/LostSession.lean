import Cryptoki.Proofs.Engine.Serving

/-!
# `Cryptoki.Proofs.Engine.LostSession` — an engine whose session is not open any longer

A session may be closed past the pool while an engine holds it, or while it is idle. The engine does
not know until the token says so, and then it makes no difference to it: the operation is over, the
session at rest, and so it is given back for its next use. Whoever acquires a session next gets this
one, and is told the same.

Only where an operation is given up is the session closed for good, as it cannot be wound up.

## Contents
- `Pool.Recycles` — a session that is not open is the next to be used.
- `Lease.close_recycles` — a session at rest whose last call was told so.
- `Engine.start_recycles`, `Engine.update_recycles`, `Engine.signOn_recycles`,
  `Engine.verifyOn_recycles` — the calls of an engine.
- `Engine.handle_recycles` — any call that is told so.
- `Engine.abandon_lost` — an operation that is given up.
-/

namespace Cryptoki

variable {ops : KeyOperations} {p q : Pool (Logged (Software ops))} {session : SessionId}

/-! ## Leases -/

/-- The session is not open on the token, but idle in the pool, and lent to whoever asks next. -/
structure Pool.Recycles (session : SessionId) (p : Pool (Logged (Software ops))) : Prop where
  closed : p.token.token.sessions.slot? session = none
  idle : session ∈ p.idle
  lent : p.acquire.1 = .ok ⟨session, false⟩

namespace Lease

variable {lease lease' : Lease} {primitive : Primitive}

theorem close_of_rest {τ : Type} [Token τ] {p : Pool τ} (h : lease.active = false) :
    lease.close p = p.release lease.session := by
  simp [close, h]

/-- Who is told that a session is not open has changed nothing on the token. -/
theorem operate_lost (hop : lease.operate primitive p = (.error .sessionHandleInvalid, lease', q)) :
    p.token.token.sessions.slot? lease.session = none ∧ q.token.token = p.token.token := by
  obtain ⟨_, _, hanswer⟩ := operate_cases hop
  obtain ⟨htoken, _⟩ := Logged.answer_eq hanswer
  have hoperate : p.token.token.operate lease.session primitive
      = (.error .sessionHandleInvalid, q.token.token) := htoken
  have hclosed : p.token.token.sessions.slot? lease.session = none := by
    by_contra hopen
    exact Software.operate_open hopen primitive (congrArg Prod.fst hoperate)
  have hsame := Software.operate_closed hclosed primitive
  rw [hoperate] at hsame
  exact ⟨hclosed, hsame⟩

/-- Its session is the next to be used, if it is at rest after the call and is given back. -/
theorem close_recycles (hop : lease.operate primitive p = (.error .sessionHandleInvalid, lease', q))
    (hrest : primitive.activeAfter lease.active false = false) :
    (lease'.close q).Recycles lease.session := by
  obtain ⟨hclosed, hsame⟩ := operate_lost hop
  have hheld : lease' = ⟨lease.session, false⟩ := by
    rw [(operate_cases hop).1, show Except.isOk _ = false from rfl, hrest]
  have hclose : lease'.close q = q.release lease.session := by
    rw [hheld, close_of_rest rfl]
  have hidle : (q.release lease.session).idle = lease.session :: q.idle := rfl
  rw [hclose]
  exact ⟨hsame ▸ hclosed, List.mem_cons_self, congrArg Prod.fst (Pool.acquire_of_idle hidle)⟩

end Lease

theorem Pool.acquire_rest {τ : Type} [Token τ] {p q : Pool τ} {lease : Lease}
    (hacq : p.acquire = (.ok lease, q)) : lease.active = false := by
  have hacquired := p.acquired
  rw [hacq] at hacquired
  cases hacquired <;> rfl

/-! ## Engines -/

namespace Engine

variable {e : Engine} {scheme : Scheme} {operation : Operation}

/-- An engine that holds no session under way starts in one at rest. -/
theorem obtainLease_rest {τ : Type} [Token τ] {p q : Pool τ} {lease : Lease}
    (hrest : ∀ held, e.lease = some held → held.active = false)
    (h : e.obtainLease p = (.ok lease, q)) : lease.active = false := by
  unfold obtainLease at h
  split at h
  · next held hlease =>
      obtain ⟨hsame, _⟩ := Prod.mk.inj h
      rw [← Except.ok.inj hsame]
      exact hrest held hlease
  · exact Pool.acquire_rest h

theorem start_recycles (hrest : ∀ held, e.lease = some held → held.active = false)
    (h : (e.start p).1 = .error (.tokenFailure operation .sessionHandleInvalid)) :
    ∃ session, (e.start p).2.2.Recycles session := by
  have hstarted := e.started p
  generalize e.start p = out at hstarted h ⊢
  cases hstarted with
  | unbound => cases h
  | starved _ hacq =>
      obtain ⟨shortage, rfl⟩ := acquire_noSession hacq
      cases h
  | @refused key mode lease lease' q r code _ _ hobtained hinit =>
      have hactive := obtainLease_rest hrest hobtained
      obtain rfl : code = .sessionHandleInvalid := by
        simp only [afterRefusal] at h
        split at h
        · cases h
        · exact (EngineError.tokenFailure.inj (Except.error.inj h)).2
      exact ⟨lease.session, Lease.close_recycles hinit hactive⟩
  | begun => cases h

/-- After giving an operation up, an engine holds a session at rest, if it holds one. -/
theorem Coherent.abandon_rest {τ : Type} [Token τ] {p : Pool τ} (h : e.Coherent scheme) :
    ∀ held, (e.abandon p).1.lease = some held → held.active = false := by
  intro held hheld
  cases hstate : e.state with
  | uninitialized =>
      rw [abandon_of_rest hstate, h.idle hstate] at hheld
      cases hheld
  | initialized =>
      obtain ⟨session, _, hlease, _⟩ := h.busy hstate
      have hparted := parted hstate hlease p
      generalize e.abandon p = out at hparted hheld
      cases hparted with
      | kept =>
          obtain rfl := Option.some.inj hheld
          rfl
      | closed => cases hheld

theorem startWith_recycles (hcoherent : e.Coherent scheme) {key : Key} {mode : OperationMode}
    (h : (e.startWith key mode p).1 = .error (.tokenFailure operation .sessionHandleInvalid)) :
    ∃ session, (e.startWith key mode p).2.2.Recycles session := by
  rcases haccept : e.accept key mode p with ⟨fault | u, q⟩
  · rw [startWith_of_rejected haccept] at h
    cases h
  · rw [startWith_of_accepted haccept] at h ⊢
    exact start_recycles (e := { (e.abandon q).1 with key := some key, mode := some mode })
      hcoherent.abandon_rest h

theorem update_recycles (hcoherent : e.Coherent scheme) {data : Bytes}
    (h : (e.update data p).1 = .error (.tokenFailure operation .sessionHandleInvalid)) :
    ∃ session, (e.update data p).2.2.Recycles session := by
  have hupdated := hcoherent.updated data p
  generalize e.update data p = out at hupdated h ⊢
  cases hupdated with
  | notStarted hstate hstart =>
      have hrest : ∀ held, e.lease = some held → held.active = false := by
        simp [hcoherent.idle hstate]
      obtain rfl := Except.error.inj h
      have hrecycles := start_recycles hrest (congrArg Prod.fst hstart)
      rw [hstart] at hrecycles
      exact hrecycles
  | empty => cases h
  | gathered => cases h
  | forwarded => cases h
  | @aborted e' q r mode lease lease' code _ _ _ _ _ hop =>
      obtain rfl : code = .sessionHandleInvalid :=
        (EngineError.tokenFailure.inj (Except.error.inj h)).2
      exact ⟨lease.session, Lease.close_recycles hop rfl⟩

/-! ## Ending an operation -/

/-- Data that cannot be prepared is no failure of the token. -/
theorem tokenForm_ne (e : Engine) (data : Bytes) {code : ReturnCode} :
    e.tokenForm data ≠ .error (.tokenFailure operation code) := by
  intro h
  unfold tokenForm at h
  split at h
  · cases h
  · split at h
    · cases h
    · next info _ =>
        split at h
        · split at h
          · cases h
          · split at h
            · cases h
            · next padding _ =>
                cases hpad : padding.pad info <;> rw [hpad] at h <;> cases h
        · cases h

theorem finalInput_ne {code : ReturnCode} :
    e.finalInput.1 ≠ .error (.tokenFailure operation code) := by
  unfold finalInput
  split
  · split
    · next hash pending _ => exact e.tokenForm_ne hash
    · next err pending htake =>
        rw [PendingInput.takeDigest_error htake]
        nofun
  · split
    · next data _ => exact e.tokenForm_ne data
    · next err hgathered =>
        rcases PendingInput.gathered_error hgathered with ⟨rule, rfl⟩ | rfl <;> nofun
  · nofun

theorem signReport_failure {reported : Operation} {result : Except ReturnCode Bytes}
    {code : ReturnCode}
    (h : signReport scheme reported result = .error (.tokenFailure operation code)) :
    result = .error code := by
  cases result with
  | error code' => rw [(EngineError.tokenFailure.inj (Except.error.inj h)).2]
  | ok block =>
      have hencode : encodeSignature scheme block = .error (.tokenFailure operation code) := h
      unfold encodeSignature at hencode
      split at hencode
      · cases hder : SignatureValue.derOfBlock block <;> rw [hder] at hencode <;> cases hencode
      · cases hencode

theorem verdictOf_failure {reported : Operation} {result : Except ReturnCode Unit}
    {code : ReturnCode} (h : verdictOf reported result = .error (.tokenFailure operation code)) :
    result = .error code := by
  unfold verdictOf at h
  split at h
  · cases h
  · split at h
    · cases h
    · rw [(EngineError.tokenFailure.inj (Except.error.inj h)).2]

theorem signOn_recycles {lease : Lease}
    (h : (e.signOn lease p).1 = .error (.tokenFailure operation .sessionHandleInvalid)) :
    ((e.signOn lease p).2.2.1.close (e.signOn lease p).2.2.2).Recycles lease.session := by
  by_cases hproc : e.scheme.processing = .stream
  · rcases hop : lease.operate (.signFinal e.scheme.expectedLength) p with ⟨result, lease', q⟩
    obtain ⟨e', hsign⟩ := signOn_streamed hproc hop
    rw [hsign] at h ⊢
    obtain rfl := signReport_failure h
    exact Lease.close_recycles hop rfl
  · cases hinput : e.finalInput.1 with
    | error err =>
        obtain ⟨e', hsign⟩ := signOn_refused hproc hinput lease p
        rw [hsign] at h
        rw [Except.error.inj h] at hinput
        exact absurd hinput finalInput_ne
    | ok input =>
        rcases hop : lease.operate (.sign input) p with ⟨result, lease', q⟩
        obtain ⟨e', hsign⟩ := signOn_gathered hproc hinput hop
        rw [hsign] at h ⊢
        obtain rfl := signReport_failure h
        exact Lease.close_recycles hop rfl

theorem verifyOn_recycles {lease : Lease} {signature : Bytes}
    (h : (e.verifyOn lease signature p).1
      = .error (.tokenFailure operation .sessionHandleInvalid)) :
    ((e.verifyOn lease signature p).2.2.1.close (e.verifyOn lease signature p).2.2.2).Recycles
      lease.session := by
  cases hdecode : decodeSignature e.scheme signature with
  | error cause =>
      rw [verifyOn_unread hdecode] at h
      cases h
  | ok block =>
      by_cases hproc : e.scheme.processing = .stream
      · rcases hop : lease.operate (.verifyFinal block) p with ⟨result, lease', q⟩
        obtain ⟨e', hverify⟩ := verifyOn_streamed hdecode hproc hop
        rw [hverify] at h ⊢
        obtain rfl := verdictOf_failure h
        exact Lease.close_recycles hop rfl
      · cases hinput : e.finalInput.1 with
        | error err =>
            obtain ⟨e', hverify⟩ := verifyOn_refused hdecode hproc hinput lease p
            rw [hverify] at h
            rw [Except.error.inj h] at hinput
            exact absurd hinput finalInput_ne
        | ok input =>
            rcases hop : lease.operate (.verify input block) p with ⟨result, lease', q⟩
            obtain ⟨e', hverify⟩ := verifyOn_gathered hdecode hproc hinput hop
            rw [hverify] at h ⊢
            obtain rfl := verdictOf_failure h
            exact Lease.close_recycles hop rfl

/-- No session was taken for the last call, and that is reported. -/
theorem takeLease_recycles (hcoherent : e.Coherent scheme) {mode : OperationMode}
    (h : (e.takeLease mode p).1 = .error (.tokenFailure operation .sessionHandleInvalid)) :
    ∃ session, (e.takeLease mode p).2.2.Recycles session := by
  have htaken := e.taken mode p
  generalize e.takeLease mode p = out at htaken h ⊢
  cases htaken with
  | wrongMode hmode =>
      obtain rfl := Except.error.inj h
      rcases expectMode_error hmode with herr | ⟨_, herr⟩ <;> cases herr
  | notStarted _ hstate hstart =>
      have hrest : ∀ held, e.lease = some held → held.active = false := by
        simp [hcoherent.idle hstate]
      obtain rfl := Except.error.inj h
      have hrecycles := start_recycles hrest (congrArg Prod.fst hstart)
      rw [hstart] at hrecycles
      exact hrecycles
  | leaseless => cases h
  | taken => cases h

theorem sign_recycles (hcoherent : e.Coherent scheme)
    (h : (e.sign p).1 = .error (.tokenFailure operation .sessionHandleInvalid)) :
    ∃ session, (e.sign p).2.2.Recycles session := by
  unfold sign at h ⊢
  rcases htake : e.takeLease .sign p with ⟨err | lease, e', q⟩
  · rw [htake] at h
    obtain rfl := Except.error.inj h
    have hrecycles := takeLease_recycles hcoherent (congrArg Prod.fst htake)
    rw [htake] at hrecycles
    exact hrecycles
  · rw [htake] at h
    exact ⟨lease.session, signOn_recycles h⟩

theorem verify_recycles (hcoherent : e.Coherent scheme) {signature : Bytes}
    (h : (e.verify signature p).1 = .error (.tokenFailure operation .sessionHandleInvalid)) :
    ∃ session, (e.verify signature p).2.2.Recycles session := by
  unfold verify at h ⊢
  rcases htake : e.takeLease .verify p with ⟨err | lease, e', q⟩
  · rw [htake] at h
    obtain rfl := Except.error.inj h
    have hrecycles := takeLease_recycles hcoherent (congrArg Prod.fst htake)
    rw [htake] at hrecycles
    exact hrecycles
  · rw [htake] at h
    exact ⟨lease.session, verifyOn_recycles h⟩

/-- **A call that is told that the session is not open leaves it for the next use.** -/
theorem handle_recycles (hcoherent : e.Coherent scheme) {request : Request}
    (h : (e.handle request p).1 = .error (.tokenFailure operation .sessionHandleInvalid)) :
    ∃ session, (e.handle request p).2.2.Recycles session := by
  cases request with
  | init key mode => exact startWith_recycles hcoherent (map_error h)
  | update data => exact update_recycles hcoherent (map_error h)
  | sign => exact sign_recycles hcoherent (map_error h)
  | verify signature => exact verify_recycles hcoherent (map_error h)
  | cancel => cases h

/-! ## Giving up -/

theorem windUp_lost (e : Engine) {lease : Lease}
    (hclosed : p.token.token.sessions.slot? lease.session = none) :
    (e.windUp lease p).1 ≠ .ok () := by
  have hwoundUp := e.woundUp lease p
  intro hdone
  generalize e.windUp lease p = out at hwoundUp hdone
  cases hwoundUp with
  | silent => cases hdone
  | @called mode input pending result lease' q outcome _ hop _ houtcome =>
      obtain ⟨_, _, hanswer⟩ := Lease.operate_cases hop
      have htold := Software.operate_closed_ends hclosed (e.windUpPrimitive_ends mode input)
      rw [show p.token.token.operate lease.session _ = (result, q.token.token)
        from (Logged.answer_eq hanswer).1] at htold
      obtain rfl : result = .error .sessionHandleInvalid := htold
      -- this is no verdict either
      have hfailed : outcome = .error (.tokenFailure .cancel .sessionHandleInvalid) := by
        rw [houtcome]
        simp [windUpResult, ReturnCode.deniesSignature]
      rw [hfailed] at hdone
      cases hdone

/-- **An operation whose session is not open cannot be wound up**, so the engine does not keep the
    session. -/
theorem abandon_lost (hstate : e.state = .initialized) (hlease : e.lease = some ⟨session, true⟩)
    (hclosed : p.token.token.sessions.slot? session = none) : (e.abandon p).1.lease = none := by
  simp only [abandon, hstate, hlease, if_true]
  split
  · have hlost : (windUp { e with state := .uninitialized, lease := none } ⟨session, true⟩ p).1
        ≠ .ok () := windUp_lost _ hclosed
    have hkept := Mirror.windUp_lease { e with state := .uninitialized, lease := none }
      ⟨session, true⟩ p
    split
    · next hwindUp =>
        rw [hwindUp] at hlost
        exact absurd rfl hlost
    · next hwindUp =>
        rw [hwindUp] at hkept
        exact hkept
  · rfl

end Engine

end Cryptoki
