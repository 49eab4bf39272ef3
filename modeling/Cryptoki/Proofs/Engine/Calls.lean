import Cryptoki.Proofs.Engine.Lifecycle
import Cryptoki.Proofs.Token.Logged

/-!
# `Cryptoki.Proofs.Engine.Calls` — which calls an engine makes

Most calls carry no input: sessions are opened and closed, key sizes are asked for, operations are
started. With the others an engine passes on the very data it was asked to take in, or it ends an
operation, since it was asked to finish one or since one is given up.

## Contents
- `Token.Event.starts`, `Token.Event.Ends`, `Token.Event.Bare` — kinds of calls.
- `Engine.start_ok_log`, `Engine.start_bare` — the calls that a start makes.
- `Engine.Gives`, `Engine.handle_gives` — the calls that an engine makes in a turn.
-/

namespace Cryptoki

/-! ## Kinds of calls -/

namespace Token.Event

/-- The call has started an operation. -/
def starts : Event → Bool
  | ⟨.operate _ (.init ..), .ok _⟩ => true
  | _ => false

/-- The call was the last of an operation. -/
def Ends (event : Event) : Prop :=
  ∃ session primitive mode, event.call = .operate session primitive ∧ primitive.Ends mode

/-- The call carries no input. -/
def Bare (event : Event) : Prop :=
  ∀ session primitive, event.call = .operate session primitive →
    ∃ mode mechanism key, primitive = .init mode mechanism key

theorem bare_openSession (result : Except ReturnCode SessionId) : Bare ⟨.openSession, result⟩ :=
  fun _ _ h => nomatch h

theorem bare_closeSession (session : SessionId) (result : Except ReturnCode Unit) :
    Bare ⟨.closeSession session, result⟩ :=
  fun _ _ h => nomatch h

theorem bare_mechanismInfo (mechanism : Mechanism)
    (result : Except ReturnCode (Call.mechanismInfo mechanism).Result) :
    Bare ⟨.mechanismInfo mechanism, result⟩ :=
  fun _ _ h => nomatch h

theorem bare_init (session : SessionId) (mode : OperationMode) (mechanism : Mechanism)
    (key : ObjectHandle) (result : Except ReturnCode Unit) :
    Bare ⟨.operate session (.init mode mechanism key), result⟩ := by
  intro session' primitive hcall
  obtain ⟨_, rfl⟩ := Call.operate.inj hcall
  exact ⟨mode, mechanism, key, rfl⟩

theorem Bare.not_ends {event : Event} (h : event.Bare) : ¬ event.Ends := by
  rintro ⟨session, primitive, mode, hcall, hends⟩
  obtain ⟨_, _, _, rfl⟩ := h session primitive hcall
  exact hends

theorem not_starts_of_ends {session : SessionId} {primitive : Primitive} {mode : OperationMode}
    {result : Except ReturnCode primitive.Result} (h : primitive.Ends mode) :
    starts ⟨.operate session primitive, result⟩ = false := by
  cases primitive with
  | init => exact h.elim
  | update => exact h.elim
  | signFinal => rfl
  | sign => rfl
  | verifyFinal => rfl
  | verify => rfl

end Token.Event

open Token (Event)

variable {τ : Type} [Token τ]

/-! ## Calls on the way -/

section

/-- No call since some state has carried input. -/
def Logged.Bare (t u : Logged τ) : Prop := Logged.Since Event.Bare t u

omit [Token τ] in
/-- Where no input is carried, no operation is ended. -/
theorem Logged.Bare.not_ends {t u : Logged τ} (h : Logged.Bare t u) (hempty : t.log = []) :
    ¬ ∃ event ∈ u.log, event.Ends := by
  rintro ⟨event, hevent, hends⟩
  obtain ⟨events, hlog, hevents⟩ := h
  rw [hlog, hempty, List.append_nil] at hevent
  exact (hevents event hevent).not_ends hends

variable {p q : Pool (Logged τ)}

theorem Pool.acquire_bare {result : Except EngineError Lease} (h : p.acquire = (result, q)) :
    Logged.Bare p.token q.token := by
  have hacquired := p.acquired
  rw [h] at hacquired
  cases hacquired with
  | reused => exact .refl _
  | full => exact .refl _
  | fresh _ _ hopen => exact (Logged.Since.refl _).answer hopen (Event.bare_openSession _)
  | refused _ _ hopen => exact (Logged.Since.refl _).answer hopen (Event.bare_openSession _)

theorem Lease.discard_bare (lease : Lease) (p : Pool (Logged τ)) :
    Logged.Bare p.token (lease.discard p).token :=
  (Logged.Since.refl _).answer
    (rfl : Token.answer (.closeSession lease.session) p.token = (_, (lease.discard p).token))
    (Event.bare_closeSession _ _)

theorem Lease.close_bare (lease : Lease) (p : Pool (Logged τ)) :
    Logged.Bare p.token (lease.close p).token := by
  unfold close
  split
  · exact lease.discard_bare p
  · exact .refl _

/-- After the last primitive of an operation, the session goes back to the pool without a call. -/
theorem Lease.close_log {lease lease' : Lease} {primitive : Primitive} {mode : OperationMode}
    {result : Except ReturnCode primitive.Result} (hends : primitive.Ends mode)
    (hop : lease.operate primitive p = (result, lease', q)) :
    (lease'.close q).token.log = ⟨.operate lease.session primitive, result⟩ :: p.token.log := by
  obtain ⟨rfl, _, hanswer⟩ := operate_cases hop
  rw [close, hends.activeAfter]
  exact (Logged.answer_eq hanswer).2

namespace Engine

variable {e e' : Engine}

theorem obtainLease_bare {lease : Lease} (h : e.obtainLease p = (.ok lease, q)) :
    Logged.Bare p.token q.token := by
  unfold obtainLease at h
  split at h
  · obtain ⟨_, rfl⟩ := Prod.mk.inj h
    exact .refl _
  · exact Pool.acquire_bare h

/-- The last call of a start that succeeds has started the operation. -/
theorem start_ok_log (h : e.start p = (.ok (), e', q)) :
    ∃ session key mode older, e.key = some key ∧ e.mode = some mode
      ∧ e' = { e with
          pending := e.pending.reset, lease := some ⟨session, true⟩, state := .initialized }
      ∧ q.token.log
        = ⟨.operate session (.init mode e.scheme.mechanism key.handle), .ok ()⟩ :: older
      ∧ Logged.Bare p.token q.token := by
  have hstarted := e.started p
  rw [h] at hstarted
  cases hstarted with
  | begun hkey hmode hobtained hinit =>
      obtain ⟨rfl, _, hanswer⟩ := Lease.operate_cases hinit
      obtain ⟨_, hlog⟩ := Logged.answer_eq hanswer
      have hbare := (obtainLease_bare hobtained).answer hanswer (Event.bare_init _ _ _ _ _)
      exact ⟨_, _, _, _, hkey, hmode, rfl, hlog, hbare⟩

/-- Whatever comes of a start, it has carried no input. -/
theorem start_bare {result : Except EngineError Unit} (h : e.start p = (result, e', q)) :
    Logged.Bare p.token q.token := by
  have hstarted := e.started p
  rw [h] at hstarted
  cases hstarted with
  | unbound => exact .refl _
  | starved _ hacq => exact Pool.acquire_bare hacq
  | @refused key mode lease lease' r s code _ _ hobtained hinit =>
      obtain ⟨_, _, hanswer⟩ := Lease.operate_cases hinit
      exact ((obtainLease_bare hobtained).answer hanswer (Event.bare_init _ _ _ _ _)).trans
        (lease'.close_bare s)
  | begun =>
      obtain ⟨_, _, _, _, _, _, _, _, hbare⟩ := start_ok_log h
      exact hbare

theorem ensureStarted_bare {result : Except EngineError Unit}
    (h : e.ensureStarted p = (result, e', q)) : Logged.Bare p.token q.token := by
  unfold ensureStarted at h
  split at h
  · obtain ⟨_, rfl, rfl⟩ := h
    exact .refl _
  · exact start_bare h

theorem giveBack_bare (e : Engine) (p : Pool (Logged τ)) :
    Logged.Bare p.token (e.giveBack p).2.token := by
  unfold giveBack
  split
  · exact .refl _
  · exact Lease.close_bare _ _

theorem accept_bare (e : Engine) (key : Key) (mode : OperationMode) (p : Pool (Logged τ)) :
    Logged.Bare p.token (e.accept key mode p).2.token := by
  rcases e.accept_pool key mode p with h | h
  · rw [h]
    exact .refl _
  · rw [h]
    have hanswer : Token.answer (.mechanismInfo e.scheme.mechanism) p.token
        = (_, (p.call (.mechanismInfo e.scheme.mechanism)).2.token) := rfl
    exact (Logged.Since.refl _).answer hanswer (Event.bare_mechanismInfo _ _)

/-! ## The calls of a turn -/

/-- The calls that an engine may make when it is asked for something. -/
inductive Gives (e : Engine) (request : Request) (event : Event) : Prop
  /-- No input is carried. -/
  | bare (h : event.Bare)
  /-- A part is passed on as it came. -/
  | part {session : SessionId} {mode : OperationMode} {data : Bytes}
      (hproc : e.scheme.processing = .stream) (hrequest : request = .update data)
      (hcall : event.call = .operate session (.update mode data))
  /-- An operation is finished. -/
  | last {mode : OperationMode} (hrequest : request.finishes? = some mode) (hends : event.Ends)
  /-- The operation under way is given up, and ended on the token. -/
  | windUp (hstate : e.state = .initialized) (hends : event.Ends)

variable {scheme : Scheme} {request : Request}

omit [Token τ] in
theorem Gives.of_bare {t u : Logged τ} (h : Logged.Bare t u) :
    Logged.Since (e.Gives request) t u :=
  h.mono fun _ => .bare

/-- The last primitive of an operation is the one call with input. -/
theorem Ended.gives {kind : Primitive → Prop} {lease lease' : Lease}
    (h : Ended kind lease p (lease', q)) (hends : ∀ primitive, kind primitive →
      ∃ mode, primitive.Ends mode)
    (hgives : ∀ event : Event, event.Ends → e.Gives request event) :
    Logged.Since (e.Gives request) p.token q.token := by
  cases h with
  | silent => exact .refl _
  | @called primitive _ _ _ hkind hop =>
      obtain ⟨_, _, hanswer⟩ := Lease.operate_cases hop
      obtain ⟨mode, hmode⟩ := hends primitive hkind
      exact (Logged.Since.refl _).answer hanswer (hgives _ ⟨_, _, mode, rfl, hmode⟩)

theorem abandon_gives (e : Engine) (p : Pool (Logged τ)) :
    Logged.Since (e.Gives request) p.token (e.abandon p).2.token := by
  have habandoned := e.abandoned p
  generalize e.abandon p = out at habandoned ⊢
  cases habandoned with
  | idle => exact .refl _
  | bare => exact .refl _
  | rested => exact .refl _
  | @discarded lease lease' q _ hstate _ _ hend =>
      have hgives : Logged.Since (e.Gives request) p.token q.token :=
        hend.gives (fun _ ⟨mode, _, hends⟩ => ⟨mode, hends⟩) fun _ => .windUp hstate
      exact hgives.trans (Gives.of_bare (lease'.discard_bare q))
  | kept hstate _ _ _ hends hop =>
      obtain ⟨_, _, hanswer⟩ := Lease.operate_cases hop
      exact (Logged.Since.refl _).answer hanswer (.windUp hstate ⟨_, _, _, rfl, hends⟩)

theorem cancel_gives (e : Engine) (p : Pool (Logged τ)) :
    Logged.Since (e.Gives request) p.token (e.cancel p).2.token :=
  (e.abandon_gives p).trans (Gives.of_bare (giveBack_bare _ _))

theorem startWith_gives (e : Engine) (key : Key) (mode : OperationMode) (p : Pool (Logged τ)) :
    Logged.Since (e.Gives request) p.token (e.startWith key mode p).2.2.token := by
  have haccept : Logged.Since (e.Gives request) p.token (e.accept key mode p).2.token :=
    Gives.of_bare (e.accept_bare key mode p)
  have habandon := haccept.trans (e.abandon_gives (e.accept key mode p).2)
  unfold startWith
  split
  next check q hcheck =>
    rw [hcheck] at habandon
    split
    next e' r hout =>
      rw [hout] at habandon
      split
      · exact habandon.trans (Gives.of_bare (giveBack_bare _ _))
      · have hstart :=
          start_bare (e := { e' with key := some key, mode := some mode }) (p := r) rfl
        exact habandon.trans (Gives.of_bare hstart)

theorem update_gives (h : e.Coherent scheme) (data : Bytes) (p : Pool (Logged τ)) :
    Logged.Since (e.Gives (.update data)) p.token (e.update data p).2.2.token := by
  have hupdated := h.updated data p
  generalize e.update data p = out at hupdated ⊢
  cases hupdated with
  | notStarted _ hstart => exact Gives.of_bare (start_bare hstart)
  | empty hstart => exact Gives.of_bare (ensureStarted_bare hstart)
  | gathered hstart => exact Gives.of_bare (ensureStarted_bare hstart)
  | forwarded hstart _ hproc _ _ hop =>
      obtain ⟨_, _, hanswer⟩ := Lease.operate_cases hop
      rw [(h.ensureStarted hstart).1.scheme_eq, ← h.scheme_eq] at hproc
      exact (Gives.of_bare (ensureStarted_bare hstart)).answer hanswer (.part hproc rfl rfl)
  | @aborted _ _ r _ _ lease' _ hstart _ hproc _ _ hop =>
      obtain ⟨_, _, hanswer⟩ := Lease.operate_cases hop
      rw [(h.ensureStarted hstart).1.scheme_eq, ← h.scheme_eq] at hproc
      have hgives : Logged.Since (e.Gives (.update data)) p.token r.token :=
        (Gives.of_bare (ensureStarted_bare hstart)).answer hanswer (.part hproc rfl rfl)
      exact hgives.trans (Gives.of_bare (lease'.close_bare r))

theorem finish_gives {mode : OperationMode} (hfinishes : request.finishes? = some mode)
    (p : Pool (Logged τ)) :
    Logged.Since (e.Gives request) p.token (e.handle request p).2.2.token := by
  have hfinished := finished (e := e) p hfinishes
  generalize (e.handle request p).2 = out at hfinished ⊢
  cases hfinished with
  | wrongMode => exact .refl _
  | notStarted _ _ hstart => exact Gives.of_bare (start_bare hstart)
  | leaseless _ hstart => exact Gives.of_bare (ensureStarted_bare hstart)
  | @ended _ q r lease lease' _ _ hstart _ hend =>
      -- a start, the last call, and the session goes back
      have hlast : Logged.Since (e.Gives request) q.token r.token :=
        hend.gives (fun _ hconcludes => ⟨mode, hconcludes.ends hfinishes⟩) fun _ => .last hfinishes
      have hstarted : Logged.Since (e.Gives request) p.token q.token :=
        Gives.of_bare (ensureStarted_bare hstart)
      exact (hstarted.trans hlast).trans (Gives.of_bare (lease'.close_bare r))

/-- **An engine makes no other calls**, whatever it is asked for. -/
theorem handle_gives (h : e.Coherent scheme) (request : Request) (p : Pool (Logged τ)) :
    Logged.Since (e.Gives request) p.token (e.handle request p).2.2.token := by
  cases request with
  | init key mode => exact e.startWith_gives key mode p
  | update data => exact update_gives h data p
  | sign => exact finish_gives rfl p
  | verify signature => exact finish_gives rfl p
  | cancel => exact e.cancel_gives p

end Engine

end

end Cryptoki
