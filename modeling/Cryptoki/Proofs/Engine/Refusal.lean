import Cryptoki.Proofs.Engine.UnderWay

/-!
# `Cryptoki.Proofs.Engine.Refusal` — starts that fail

A start can fail at the check of the key, for want of a session, or because the token refuses it,
and each time an operation may have been given up before, with a session that was kept or closed.
However it fails, the engine is at rest and the session is out of its hands. What stays bound tells
how it failed: no key if the key was at fault, so that nothing can be done until another is bound;
and the new key in the new mode if there may be better luck later, so that the next part starts once
more.

## Contents
- `Token.Event.Begins`, `Pool.Calm` — calls that begin something, and pools where none was made.
- `Engine.GivenUp`, `Engine.startWith_givenUp` — what becomes of the session that was held.
- `Engine.startWith_calm` — a key that fails the check begins nothing.
- `Engine.Cycle.Keyless`, `Engine.Cycle.keyless` — calls while no key is bound.
- `Engine.Cycle.Retries`, `Engine.Cycle.retries` — calls while a key is bound, until the next start.
- `Engine.Cycle.refusal` — starts that fail, in any run of calls.
-/

namespace Cryptoki

open Token (Event)

variable {τ : Type} [Token τ]

/-! ## Calls that begin something -/

/-- The call opens a session, or is to start an operation. -/
def Token.Event.Begins (event : Event) : Prop :=
  event.call = .openSession ∨
    ∃ session mode mechanism key, event.call = .operate session (.init mode mechanism key)

/-- Nothing is begun between two states of a pool, and no idle session is taken. -/
structure Pool.Calm {τ : Type} (p q : Pool (Logged τ)) : Prop where
  since : Logged.Since (fun event => ¬ event.Begins) p.token q.token
  idle : p.idle <:+ q.idle

namespace Pool.Calm

variable {p q r : Pool (Logged τ)}

omit [Token τ] in
theorem refl (p : Pool (Logged τ)) : p.Calm p := ⟨.refl _, List.suffix_rfl⟩

omit [Token τ] in
theorem trans (h : p.Calm q) (h' : q.Calm r) : p.Calm r :=
  ⟨h.since.trans h'.since, h.idle.trans h'.idle⟩

/-- Closing a session begins nothing. -/
theorem discard (lease : Lease) (p : Pool (Logged τ)) : p.Calm (lease.discard p) := by
  refine ⟨(Logged.Since.refl _).answer
    (rfl : Token.answer (.closeSession lease.session) p.token = (_, (lease.discard p).token)) ?_,
    List.suffix_rfl⟩
  rintro (hcall | ⟨_, _, _, _, hcall⟩) <;> cases hcall

/-- Giving a session back begins nothing. -/
theorem close (lease : Lease) (p : Pool (Logged τ)) : p.Calm (lease.close p) := by
  unfold Lease.close
  split
  · exact discard lease p
  · exact ⟨.refl _, List.suffix_cons _ _⟩

/-- Nor does ending an operation. -/
theorem operate {lease lease' : Lease} {primitive : Primitive} {mode : OperationMode}
    {result : Except ReturnCode primitive.Result} (hends : primitive.Ends mode)
    (hop : lease.operate primitive p = (result, lease', q)) : p.Calm q := by
  obtain ⟨_, hpool, hanswer⟩ := Lease.operate_cases hop
  refine ⟨(Logged.Since.refl _).answer hanswer ?_, ?_⟩
  · rintro (hcall | ⟨_, _, _, _, hcall⟩)
    · cases hcall
    · obtain ⟨_, rfl⟩ := Call.operate.inj hcall
      exact hends
  · rw [hpool]

end Pool.Calm

namespace Engine

variable {scheme : Scheme} {e e' : Engine} {key : Key} {mode : OperationMode} {err : EngineError}

/-! ## The session that was held -/

/-- What has become of the session of an operation that is given up, by the calls that were made and
    the pools before and after. -/
inductive GivenUp (e : Engine) (session : SessionId) (events : List Event) (p q : Pool τ) : Prop
  /-- The operation was ended on the token, and the session waits for its next use. -/
  | idle {mode : OperationMode} {primitive : Primitive}
      {result : Except ReturnCode primitive.Result} (hmode : e.mode = some mode)
      (hends : primitive.Ends mode) (hcall : ⟨.operate session primitive, result⟩ ∈ events)
      (hidle : q.idle = session :: p.idle) (hopened : q.opened = p.opened)
  /-- The session was closed on the token. -/
  | closed {result : Except ReturnCode Unit} (hcall : ⟨.closeSession session, result⟩ ∈ events)

section

variable {p q : Pool (Logged τ)} {session : SessionId}

omit [Token τ] in
/-- The log does not matter to what the pool has of the session. -/
theorem GivenUp.erase {events : List Event} (h : GivenUp e session events p q) :
    GivenUp e session events p.erase q.erase := by
  cases h with
  | idle hmode hends hcall hidle hopened => exact .idle hmode hends hcall hidle hopened
  | closed hcall => exact .closed hcall

omit [Token τ] in
/-- A call that was made stays in the log. -/
theorem mem_log_of_bare {t u : Logged τ} {event : Event} (h : Logged.Bare t u)
    (hmem : event ∈ t.log) : event ∈ u.log := by
  obtain ⟨events, hlog, _⟩ := h
  rw [hlog]
  exact List.mem_append_right events hmem

/-- A session at rest is released when it is given back. -/
theorem giveBack_of_rested (hlease : e.lease = some ⟨session, false⟩) :
    (e.giveBack p).2 = p.release session := by
  simp only [giveBack, hlease]
  rfl

/-- A session at rest is released when no operation can be started in it. -/
theorem start_error_of_rested (hkey : e.key = some key) (hmode : e.mode = some mode)
    (hlease : e.lease = some ⟨session, false⟩) (h : e.start p = (.error err, e', q)) :
    q.idle = session :: p.idle ∧ q.opened = p.opened := by
  have hstarted := e.started p
  rw [h] at hstarted
  cases hstarted with
  | unbound hnone =>
      rcases hnone with hnone | hnone
      · cases hnone.symm.trans hkey
      · cases hnone.symm.trans hmode
  | starved hnone => cases hnone.symm.trans hlease
  | refused _ _ hobtained hinit =>
      simp only [obtainLease, hlease] at hobtained
      obtain ⟨hsame, rfl⟩ := Prod.mk.inj hobtained
      obtain rfl := Except.ok.inj hsame
      obtain ⟨rfl, hpool, _⟩ := Lease.operate_cases hinit
      rw [hpool]
      exact ⟨rfl, rfl⟩

/-- An operation under way is given up on the token, and its session kept, or the session is
    closed. -/
theorem abandon_session (hstate : e.state = .initialized)
    (hlease : e.lease = some ⟨session, true⟩) (p : Pool (Logged τ)) :
    (∃ mode primitive, ∃ result : Except ReturnCode primitive.Result,
        e.mode = some mode ∧ primitive.Ends mode
          ∧ ⟨.operate session primitive, result⟩ ∈ (e.abandon p).2.token.log
          ∧ (e.abandon p).1.lease = some ⟨session, false⟩
          ∧ (e.abandon p).2.idle = p.idle ∧ (e.abandon p).2.opened = p.opened)
      ∨ ∃ result, ⟨.closeSession session, result⟩ ∈ (e.abandon p).2.token.log := by
  have hparted := parted hstate hlease p
  generalize e.abandon p = out at hparted ⊢
  cases hparted with
  | @kept q _ mode primitive result hmode hends hop =>
      obtain ⟨_, hpool, hanswer⟩ := Lease.operate_cases hop
      refine .inl ⟨mode, primitive, result, hmode, hends, ?_, rfl, ?_, ?_⟩
      · rw [(Logged.answer_eq hanswer).2]
        exact List.mem_cons_self
      · rw [hpool]
      · rw [hpool]
  | @closed _ q => exact .inr ⟨(q.call (.closeSession session)).1, List.mem_cons_self⟩

/-- **A start that fails lets go of the session that was held**, and of its operation. -/
theorem startWith_givenUp (hstate : e.state = .initialized)
    (hlease : e.lease = some ⟨session, true⟩)
    (h : e.startWith key mode p = (.error err, e', q)) :
    GivenUp e session q.token.log p q := by
  -- checking the key leaves the sessions alone
  have hsame : (e.accept key mode p).2.idle = p.idle
      ∧ (e.accept key mode p).2.opened = p.opened := by
    rcases e.accept_pool key mode p with hpool | hpool <;> rw [hpool] <;> exact ⟨rfl, rfl⟩
  rcases haccept : e.accept key mode p with ⟨fault | u, r⟩
  · rw [haccept] at hsame
    rw [startWith_of_rejected haccept] at h
    obtain rfl : (giveBack _ _).2 = q := congrArg (·.2.2) h
    have hbare := giveBack_bare { (e.abandon r).1 with key := none } (e.abandon r).2
    rcases abandon_session hstate hlease r with
      ⟨mode', primitive, result, hmode, hends, hcall, hkept, hidle, hopened⟩ | ⟨result, hcall⟩
    · have hrelease := giveBack_of_rested (e := { (e.abandon r).1 with key := none })
        (p := (e.abandon r).2) hkept
      refine .idle hmode hends (mem_log_of_bare hbare hcall) ?_ ?_
      · rw [hrelease, ← hsame.1, ← hidle]
        rfl
      · rw [hrelease, ← hsame.2, ← hopened]
        rfl
    · exact .closed (mem_log_of_bare hbare hcall)
  · rw [haccept] at hsame
    rw [startWith_of_accepted haccept] at h
    have hbare := start_bare h
    rcases abandon_session hstate hlease r with
      ⟨mode', primitive, result, hmode, hends, hcall, hkept, hidle, hopened⟩ | ⟨result, hcall⟩
    · obtain ⟨hidle', hopened'⟩ := start_error_of_rested
        (e := { (e.abandon r).1 with key := some key, mode := some mode }) rfl rfl hkept h
      refine .idle hmode hends (mem_log_of_bare hbare hcall) ?_ ?_
      · rw [hidle', hidle, hsame.1]
      · rw [hopened', hopened, hsame.2]
    · exact .closed (mem_log_of_bare hbare hcall)

end

/-! ## Keys that fail the check -/

section

variable {p : Pool (Logged τ)}

theorem accept_calm (e : Engine) (key : Key) (mode : OperationMode) (p : Pool (Logged τ)) :
    p.Calm (e.accept key mode p).2 := by
  rcases e.accept_pool key mode p with hpool | hpool
  · rw [hpool]
    exact .refl p
  · rw [hpool]
    have hanswer : Token.answer (.mechanismInfo e.scheme.mechanism) p.token
        = (_, (p.call (.mechanismInfo e.scheme.mechanism)).2.token) := rfl
    refine ⟨(Logged.Since.refl _).answer hanswer ?_, List.suffix_rfl⟩
    rintro (hcall | ⟨_, _, _, _, hcall⟩) <;> cases hcall

theorem abandon_calm (e : Engine) (p : Pool (Logged τ)) : p.Calm (e.abandon p).2 := by
  have habandoned := e.abandoned p
  generalize e.abandon p = out at habandoned ⊢
  cases habandoned with
  | idle => exact .refl p
  | bare => exact .refl p
  | rested => exact .refl p
  | @discarded _ lease' q _ _ _ _ hend =>
      have hended : p.Calm q := by
        cases hend with
        | silent => exact .refl p
        | called hkind hop =>
            obtain ⟨mode, _, hends⟩ := hkind
            exact .operate hends hop
      exact hended.trans (.discard lease' q)
  | kept _ _ _ _ hends hop => exact .operate hends hop

theorem giveBack_calm (e : Engine) (p : Pool (Logged τ)) : p.Calm (e.giveBack p).2 := by
  unfold giveBack
  split
  · exact .refl p
  · exact .close _ p

/-- The check fails for the family or the half of the key, or for its size if it is not the one that
    is bound. -/
theorem accept_error (h : (∃ fault, e.scheme.acceptKey key mode = .error fault)
      ∨ (e.key ≠ some key ∧ ∃ fault, e.scheme.acceptSize key (e.announced p) = .error fault)) :
    ∃ fault q, e.accept key mode p = (.error fault, q) := by
  rcases haccept : e.scheme.acceptKey key mode with fault | u
  · refine ⟨fault, p, ?_⟩
    unfold accept
    rw [haccept]
  · rcases h with ⟨fault, hfault⟩ | ⟨hkey, fault, hfault⟩
    · cases haccept.symm.trans hfault
    · refine ⟨fault, (e.acceptSize key p).2, ?_⟩
      unfold accept
      rw [haccept, if_neg hkey]
      exact Prod.ext ((acceptSize_eq e key p).trans hfault) rfl

/-- **With a key that fails the check nothing is begun**: no session is taken or opened. -/
theorem startWith_calm {fault : KeyFault} {q : Pool (Logged τ)}
    (h : e.accept key mode p = (.error fault, q)) : p.Calm (e.startWith key mode p).2.2 := by
  have haccept := e.accept_calm key mode p
  rw [h] at haccept
  rw [startWith_of_rejected h]
  exact (haccept.trans (e.abandon_calm q)).trans (giveBack_calm _ _)

end

/-! ## Calls while no key is bound -/

/-- The call has to do with the message. -/
def Request.Proceeds : Request → Prop
  | .update _ | .sign | .verify _ => True
  | .init .. | .cancel => False

/-- Without a key, a call that has to do with the message does nothing. -/
theorem Coherent.handle_unbound {request : Request} (h : e.Coherent scheme) (hkey : e.key = none)
    (hproceeds : request.Proceeds) (p : Pool τ) :
    ∃ fault, e.handle request p = (.error (.wrongState fault), e, p) := by
  have hstate : e.state = .uninitialized := by
    cases hstate : e.state with
    | uninitialized => rfl
    | initialized =>
        obtain ⟨_, _, _, hbound⟩ := h.busy hstate
        cases hkey.symm.trans hbound
  have hstart := start_unbound (.inl hkey) p
  have hfinish : ∀ {mode}, request.finishes? = some mode →
      ∃ fault, e.handle request p = (.error (.wrongState fault), e, p) := by
    intro mode hfinishes
    cases hmode : e.expectMode mode with
    | ok u => exact ⟨.noKeyBound, by rw [handle_of_rest hfinishes hstate hmode, hstart]⟩
    | error err =>
        rw [handle_of_wrongMode hfinishes hmode]
        rcases expectMode_error hmode with rfl | ⟨bound, rfl⟩
        · exact ⟨_, rfl⟩
        · exact ⟨_, rfl⟩
  cases request with
  | init | cancel => exact hproceeds.elim
  | update data =>
      exact ⟨.noKeyBound, by rw [handle_update_of_rest hstate, hstart]⟩
  | sign => exact hfinish rfl
  | verify signature => exact hfinish rfl

namespace Cycle

variable {c : Cycle}

/-- None of some calls binds a key. -/
def BindsNone (c : Cycle) : List (Turn τ) → Prop
  | [] => True
  | turn :: turns =>
      (∀ key mode, turn.request = .init key mode → (c.next turn).engine.key = none)
        ∧ (c.next turn).BindsNone turns

/-- Without a start that binds one, there is no key. -/
theorem BindsNone.run_key {turns : List (Turn τ)} (h : c.BindsNone turns)
    (hcoherent : c.engine.Coherent scheme) (hkey : c.engine.key = none) :
    (c.run turns).engine.Coherent scheme ∧ (c.run turns).engine.key = none := by
  induction turns generalizing c with
  | nil => exact ⟨hcoherent, hkey⟩
  | cons turn turns ih =>
      obtain ⟨hinit, hrest⟩ := h
      refine ih hrest (handle_coherent hcoherent turn.request turn.pool.logged) ?_
      rcases handle_key hcoherent turn.request turn.pool.logged with
        hnone | hsame | ⟨key, mode, hrequest, _⟩
      · exact hnone
      · exact hsame.trans hkey
      · exact hinit key mode hrequest

/-- No key is bound, and until a start binds one, a call that has to do with the message fails for
    the engine's state, and the token is not called. -/
structure Keyless (τ : Type) [Token τ] (c : Cycle) : Prop where
  key_eq : c.engine.key = none
  idle (later : List (Turn τ)) : c.BindsNone later → ∀ turn : Turn τ, turn.request.Proceeds →
    (∃ fault, (c.run later).answer turn = .error (.wrongState fault))
      ∧ (c.run later).events turn = []

theorem keyless (hcoherent : c.engine.Coherent scheme) (hkey : c.engine.key = none) :
    c.Keyless τ := by
  refine ⟨hkey, fun later hlater turn hproceeds => ?_⟩
  obtain ⟨hcoherent', hkey'⟩ := hlater.run_key hcoherent hkey
  obtain ⟨fault, hhandle⟩ := hcoherent'.handle_unbound hkey' hproceeds turn.pool.logged
  rw [answer_eq, events, hhandle]
  exact ⟨⟨fault, rfl⟩, rfl⟩

end Cycle

/-! ## Calls while a key is bound -/

theorem start_mode (e : Engine) (p : Pool τ) : (e.start p).2.1.mode = e.mode := by
  have hstarted := e.started p
  generalize e.start p = out at hstarted ⊢
  cases hstarted with
  | unbound => rfl
  | starved => rfl
  | begun => rfl
  | refused =>
      unfold afterRefusal
      split <;> rfl

theorem abandon_mode (e : Engine) (p : Pool τ) : (e.abandon p).1.mode = e.mode := by
  have habandoned := e.abandoned p
  generalize e.abandon p = out at habandoned ⊢
  cases habandoned <;> rfl

theorem giveBack_mode (e : Engine) (p : Pool τ) : (e.giveBack p).1.mode = e.mode := by
  unfold giveBack
  split <;> rfl

theorem finish_mode {request : Request} (h : e.Coherent scheme)
    (hfinishes : request.finishes? = some mode) (p : Pool τ) :
    (e.handle request p).2.1.mode = e.mode := by
  have hfinished := finished (e := e) p hfinishes
  generalize (e.handle request p).2 = out at hfinished ⊢
  cases hfinished with
  | wrongMode => rfl
  | notStarted _ _ hstart => rw [← e.start_mode p, hstart]
  | leaseless _ hstart => exact (h.ensureStarted hstart).2.2.1
  | ended _ hstart => exact (h.ensureStarted hstart).2.2.1

theorem update_mode (h : e.Coherent scheme) (data : Bytes) (p : Pool τ) :
    (e.update data p).2.1.mode = e.mode := by
  have hupdated := h.updated data p
  generalize e.update data p = out at hupdated ⊢
  cases hupdated with
  | notStarted _ hstart => rw [← e.start_mode p, hstart]
  | empty hstart => exact (h.ensureStarted hstart).2.2.1
  | gathered hstart => exact (h.ensureStarted hstart).2.2.1
  | forwarded hstart => exact (h.ensureStarted hstart).2.2.1
  | aborted hstart => exact (h.ensureStarted hstart).2.2.1

/-- The mode is that of the last start. -/
theorem handle_mode {request : Request} (h : e.Coherent scheme)
    (hrequest : ∀ key mode, request ≠ .init key mode) (p : Pool τ) :
    (e.handle request p).2.1.mode = e.mode := by
  cases request with
  | init key mode => exact absurd rfl (hrequest key mode)
  | update data => exact update_mode h data p
  | sign => exact finish_mode h rfl p
  | verify signature => exact finish_mode h rfl p
  | cancel => exact (giveBack_mode _ _).trans (e.abandon_mode p)

namespace Cycle

variable {c : Cycle}

/-- Until the next start, the mode stays, and the key stays or is lost. -/
theorem run_bound {turns : List (Turn τ)} (hcoherent : c.engine.Coherent scheme)
    (hturns : ∀ turn ∈ turns, ∀ key mode, turn.request ≠ .init key mode) :
    (c.run turns).engine.Coherent scheme
      ∧ ((c.run turns).engine.key = none ∨ (c.run turns).engine.key = c.engine.key)
      ∧ (c.run turns).engine.mode = c.engine.mode := by
  induction turns generalizing c with
  | nil => exact ⟨hcoherent, .inr rfl, rfl⟩
  | cons turn turns ih =>
      have hturn := hturns turn List.mem_cons_self
      have hmode := handle_mode hcoherent hturn turn.pool.logged
      obtain ⟨hcoherent', hkey', hmode'⟩ := ih (c := c.next turn)
        (handle_coherent hcoherent turn.request turn.pool.logged)
        fun turn' hmem => hturns turn' (List.mem_cons_of_mem turn hmem)
      refine ⟨hcoherent', ?_, hmode'.trans hmode⟩
      rcases hkey' with hnone | hsame
      · exact .inl hnone
      · rcases handle_key hcoherent turn.request turn.pool.logged with
          hnone | hkey | ⟨key, mode, hrequest, _⟩
        · exact .inl (hsame.trans hnone)
        · exact .inr (hsame.trans hkey)
        · exact absurd hrequest (hturn key mode)

/-- A key is bound in a mode, and until the next start, for as long as it is bound, a part that
    finds the engine at rest first does what a start with them does. -/
structure Retries (τ : Type) [Token τ] (key : Key) (mode : OperationMode) (c : Cycle) : Prop where
  key_eq : c.engine.key = some key
  mode_eq : c.engine.mode = some mode
  again (later : List (Turn τ)) (data : Bytes) {υ : Type} [Token υ] (p : Pool υ) :
    (∀ turn ∈ later, ∀ key mode, turn.request ≠ .init key mode) →
    (c.run later).engine.state = .uninitialized → (c.run later).engine.key ≠ none →
    (c.run later).engine.handle (.update data) p
      = (c.run later).engine.startThenUpdate key mode data p

theorem retries (hcoherent : c.engine.Coherent scheme) (hkey : c.engine.key = some key)
    (hmode : c.engine.mode = some mode) : c.Retries τ key mode := by
  refine ⟨hkey, hmode, fun later data υ _ p hlater hstate hbound => ?_⟩
  obtain ⟨hcoherent', hkey', hmode'⟩ := run_bound hcoherent hlater
  have hsame := hkey'.resolve_left hbound
  exact hcoherent'.update_eq hstate (hsame.trans hkey) (hmode'.trans hmode) data p

/-! ## Every start -/

/-- A start that fails, as callers and the engine see it. -/
theorem startWith_of_init_error {p : Pool τ} (h : (e.handle (.init key mode) p).1 = .error err) :
    e.startWith key mode p = (.error err, (e.handle (.init key mode) p).2) := by
  rcases hstart : e.startWith key mode p with ⟨result, out⟩
  simp only [handle, hstart] at h ⊢
  cases result with
  | ok u => cases h
  | error err' => rw [Except.error.inj h]

/-- **Starts that fail.** After any calls, over any token and with anything between them, let an
    engine be asked to start with a key, and fail. Then it is at rest; a session that it held is out
    of its hands, in the pool after its operation was ended or closed on the token; and of all
    sessions in use those of others stay. Either the key was at fault: then none is bound, and until
    a start binds one, whatever has to do with a message fails for the engine's state, and the token
    is not called. Or there was no session, or the token failed: then the key is bound in the mode,
    and a part does what a start with them does, for as long as they are.

    A key that fails the check, of its family and half or of its size if it is not the one that is
    bound, is always at fault. The token is then not asked to open a session or to start an
    operation, and no idle session is taken. -/
theorem refusal (scheme : Scheme) (turns : List (Turn τ)) (key : Key) (mode : OperationMode)
    (p : Pool τ) :
    let c := (Cycle.start scheme).run turns
    let turn : Turn τ := ⟨.init key mode, p⟩
    let q := (c.engine.handle (.init key mode) p).2.2
    (∀ err, c.answer turn = .error err →
        (c.next turn).engine.state = .uninitialized ∧ (c.next turn).engine.lease = none
          ∧ (∀ lease, c.engine.lease = some lease →
              GivenUp c.engine lease.session (c.events turn) p q)
          ∧ (∀ n, p.InUse (n + c.engine.held) → q.InUse n)
          ∧ (((∃ fault, err = .unacceptableKey fault) ∧ (c.next turn).Keyless τ)
            ∨ (((∃ shortage, err = .noSession shortage)
                ∨ ∃ operation code, err = .tokenFailure operation code)
              ∧ (c.next turn).Retries τ key mode)))
      ∧ ((∃ fault, scheme.acceptKey key mode = .error fault)
            ∨ (c.engine.key ≠ some key
              ∧ ∃ fault, scheme.acceptSize key (c.engine.announced p) = .error fault) →
          (∃ fault, c.answer turn = .error (.unacceptableKey fault))
            ∧ (∀ event ∈ c.events turn, ¬ event.Begins) ∧ p.idle <:+ q.idle) := by
  intro c turn q
  have hcoherent : c.engine.Coherent scheme :=
    (run_follows (ofScheme_coherent scheme) (start_follows scheme) turns).1
  have hnext : (c.next turn).engine.Coherent scheme :=
    handle_coherent hcoherent (.init key mode) p.logged
  -- over the pool itself, the same comes to pass without the log
  have herase : c.engine.handle (.init key mode) p
      = (c.answer turn, (c.next turn).engine,
        (c.engine.handle (.init key mode) p.logged).2.2.erase) :=
    (c.engine.handle_erase p.logged (.init key mode)).trans (by rw [answer_eq]; rfl)
  constructor
  · intro err herr
    have hlogged := (c.answer_eq turn).symm.trans herr
    have hstart := startWith_of_init_error hlogged
    have hrest : (c.next turn).engine.state = .uninitialized := hcoherent.rest_of_init hlogged
    have hlease := hnext.idle hrest
    refine ⟨hrest, hlease, ?_, ?_, ?_⟩
    · intro lease hheld
      obtain ⟨hstate, hactive⟩ := hcoherent.busy_of_lease hheld
      rw [hactive] at hheld
      have hgiven := (startWith_givenUp hstate hheld hstart).erase
      rw [show q = _ from congrArg (·.2.2) herase]
      exact hgiven
    · intro n hinUse
      have hafter := handle_inUse (.init key mode) hinUse
      rw [congrArg (·.2.1) herase, held_of_none hlease] at hafter
      exact hafter
    · cases startWith_error hstart with
      | rejected hkey => exact .inl ⟨⟨_, rfl⟩, keyless hnext hkey⟩
      | starved hkey hmode => exact .inr ⟨.inl ⟨_, rfl⟩, retries hnext hkey hmode⟩
      | failed hkey hmode => exact .inr ⟨.inr ⟨_, _, rfl⟩, retries hnext hkey hmode⟩
  · intro hfault
    rw [← hcoherent.scheme_eq] at hfault
    obtain ⟨fault, r, haccept⟩ := accept_error (p := p.logged) hfault
    obtain ⟨⟨events, hlog, hcalm⟩, hidle⟩ := startWith_calm haccept
    refine ⟨⟨fault, ?_⟩, ?_, ?_⟩
    · rw [answer_eq]
      show (c.engine.startWith key mode p.logged).1.map _ = _
      rw [startWith_of_rejected haccept]
      rfl
    · intro event hevent
      have hmem : event ∈ events ++ [] := hlog ▸ hevent
      rw [List.append_nil] at hmem
      exact hcalm event hmem
    · rw [show q = _ from congrArg (·.2.2) herase]
      exact hidle

/-- A key of the wrong half ends the operation that was under way, and none is bound; the right key is
    bound, though the token fails to start an operation with it. -/
theorem refusal_of_halves :
    let scheme : Scheme := ⟨.sha1WithDsa, .dsa, .digestHere .sha1⟩
    let done := dsaTurns "" [.init dsaKey .sign, .update [1]]
    let c := (start scheme).run done.1
    let publicKey : Key := ⟨⟨3⟩, .publicKey, .dsa [0xff]⟩
    let wrong : Turn Scripted := ⟨.init publicKey .sign, done.2⟩
    let right : Turn Scripted := ⟨.init dsaKey .sign, (dsaTurns "C_SignInit" []).2⟩
    c.engine.lease = some ⟨⟨1⟩, true⟩
      ∧ c.answer wrong = .error (.unacceptableKey (.wrongHalf .sign))
      ∧ (c.events wrong).map (·.call) = [.closeSession ⟨1⟩]
      ∧ (c.next wrong).engine.lease = none ∧ (c.next wrong).Keyless Scripted
      ∧ (start scheme).answer right = .error (.tokenFailure .signInit .deviceError)
      ∧ ((start scheme).next right).engine.lease = none
      ∧ ((start scheme).next right).Retries Scripted dsaKey .sign := by
  intro scheme done c publicKey wrong right
  have hwrong : c.answer wrong = .error (.unacceptableKey (.wrongHalf .sign)) := by decide +kernel
  have hright : (start scheme).answer right = .error (.tokenFailure .signInit .deviceError) := by
    decide +kernel
  obtain ⟨_, hleft, _, _, hwhy⟩ := (refusal scheme done.1 publicKey .sign done.2).1 _ hwrong
  obtain ⟨_, hleft', _, _, hwhy'⟩ := (refusal scheme [] dsaKey .sign right.pool).1 _ hright
  refine ⟨by decide +kernel, hwrong, by decide +kernel, hleft, ?_, hright, hleft', ?_⟩
  · rcases hwhy with ⟨_, hkeyless⟩ | ⟨⟨_, hother⟩ | ⟨_, _, hother⟩, _⟩
    · exact hkeyless
    · cases hother
    · cases hother
  · rcases hwhy' with ⟨⟨_, hother⟩, _⟩ | ⟨_, hretries⟩
    · cases hother
    · exact hretries

end Cycle

end Engine

end Cryptoki
