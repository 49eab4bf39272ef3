import Cryptoki.Proofs.Engine.Serving
import Cryptoki.Proofs.Engine.WindUp

/-!
# `Cryptoki.Proofs.Engine.Cancelling` — giving an operation up, over the token in memory

An operation that is given up is a matter between the engine and its session: no other session is
called on. In the end the session is idle, with no operation in it, or it is closed. Which of the
two is up to the token, and the token in memory has no reason to fail: it is given the very input
that the operation lacks, in the form that it takes, so it makes a signature, or denies the
placeholder. So where sessions are worth keeping and the input is not gathered raw, they are kept.

## Contents
- `Pool.WorksOn` — calls on one session and no other.
- `Pool.Regains`, `Pool.Loses` — a session that was in use is idle, or closed.
- `Engine.cancel_settles` — one of the two comes of an operation that is given up.
- `Engine.Serves.abandon_keeps` — the token ends the operation.
- `Engine.Serves.cancel_regains`, `Engine.Serves.init_keeps` — so the session is idle, or goes on
  with the next operation.
-/

namespace Cryptoki

variable {ops : KeyOperations} {session : SessionId} {p q r : Pool (Logged (Software ops))}

/-! ## Calls on one session -/

/-- The call is on a session. -/
def Token.Event.On (session : SessionId) (event : Token.Event) : Prop :=
  event.call = .closeSession session ∨ ∃ primitive, event.call = .operate session primitive

/-- A call is on one session only. -/
theorem Token.Event.On.session_eq {event : Token.Event} {other : SessionId}
    (h : event.On session) (h' : event.On other) : session = other := by
  rcases h with h | ⟨primitive, h⟩ <;> rcases h' with h' | ⟨primitive', h'⟩
  · exact Call.closeSession.inj (h.symm.trans h')
  · cases h.symm.trans h'
  · cases h.symm.trans h'
  · exact (Call.operate.inj (h.symm.trans h')).1

namespace Pool

/-- All calls between two states of a pool are on one session, and all other slots are as they
    were. -/
structure WorksOn (session : SessionId) (p q : Pool (Logged (Software ops))) : Prop where
  calls : Logged.Since (Token.Event.On session) p.token q.token
  slot?_eq : ∀ other, other ≠ session → q.slot? other = p.slot? other

namespace WorksOn

theorem refl (session : SessionId) (p : Pool (Logged (Software ops))) : p.WorksOn session p :=
  ⟨.refl _, fun _ _ => rfl⟩

theorem trans (h : p.WorksOn session q) (h' : q.WorksOn session r) : p.WorksOn session r :=
  ⟨h.calls.trans h'.calls, fun other hne => (h'.slot?_eq other hne).trans (h.slot?_eq other hne)⟩

theorem operate {lease lease' : Lease} {primitive : Primitive}
    {result : Except ReturnCode primitive.Result}
    (hop : lease.operate primitive p = (result, lease', q)) : p.WorksOn lease.session q := by
  obtain ⟨_, _, hanswer⟩ := Lease.operate_cases hop
  obtain ⟨htoken, _⟩ := Logged.answer_eq hanswer
  have hoperate : p.token.token.operate lease.session primitive = (result, q.token.token) := htoken
  refine ⟨(Logged.Since.refl _).answer hanswer (.inr ⟨primitive, rfl⟩), ?_⟩
  intro other hne
  have hslot := Software.slot?_operate (t := p.token.token) hne primitive
  rw [hoperate] at hslot
  exact hslot

theorem discard (session : SessionId) (p : Pool (Logged (Software ops))) :
    p.WorksOn session (p.discard session) := by
  refine ⟨(Logged.Since.refl _).answer
    (rfl : Token.answer (.closeSession session) p.token = (_, (p.discard session).token))
    (.inl rfl), ?_⟩
  intro other hne
  exact (Sessions.slot?_close p.token.token.sessions session other).trans (if_neg hne)

end WorksOn

/-! ## A session that was in use -/

/-- The session is idle now, without an operation. -/
structure Regains (session : SessionId) (p q : Pool (Logged (Software ops))) : Prop where
  idle : q.idle = session :: p.idle
  opened : q.opened = p.opened
  slot : q.slot? session = some none

/-- The session is closed now, and there is room for another. -/
structure Loses (session : SessionId) (p q : Pool (Logged (Software ops))) : Prop where
  idle : q.idle = p.idle
  opened : q.opened + 1 = p.opened
  slot : q.slot? session = none

/-- Sessions are not to be closed lightly: they own objects, and the settings ask to end operations
    that are given up. -/
structure KeepsSessions (p : Pool (Logged (Software ops))) : Prop where
  objects : p.token.token.sessionObjects = true
  explicit : p.config.explicitCancel = true

end Pool

/-- The last primitive empties the slot of its session. -/
theorem slot?_of_ends {mode : OperationMode} {primitive : Primitive} {lease lease' : Lease}
    {op : Option SoftwareOperation} {result : Except ReturnCode primitive.Result}
    (hslot : p.slot? lease.session = some op) (hends : primitive.Ends mode)
    (hop : lease.operate primitive p = (result, lease', q)) :
    q.slot? lease.session = some none := by
  obtain ⟨_, _, hanswer⟩ := Lease.operate_cases hop
  obtain ⟨htoken, _⟩ := Logged.answer_eq hanswer
  have hoperate : p.token.token.operate lease.session primitive = (result, q.token.token) := htoken
  have hopen : p.token.token.sessions.slot? lease.session ≠ none := by
    rw [show p.token.token.sessions.slot? lease.session = some op from hslot]
    exact nofun
  have hwritten := Software.slot?_operate_of_ends hopen hends
  rw [hoperate] at hwritten
  exact hwritten

/-- An operation that is given what it lacks is ended by the key operation on its message. -/
theorem Software.complete_operation {α : Type} {t : Software ops} {scheme : Scheme} {key : Key}
    {mode : OperationMode} {parts : List Bytes} {stored : StoredKey} (hresolved : scheme.Resolved)
    (hdsa : scheme.family ≠ .dsa)
    (hslot : t.sessions.slot? session = some (some (scheme.operation key mode parts)))
    (hstored : t.keys.get? key.handle = some stored)
    (keyOperation : Mechanism → Bytes → StoredKey → Except ReturnCode α) :
    (t.complete session mode (scheme.lastInput? key parts.flatten) keyOperation).1
      = keyOperation scheme.mechanism (scheme.keyInput key parts.flatten) stored := by
  refine complete_eq hslot ?_ hstored keyOperation
  unfold Scheme.lastInput?
  split
  · next hproc => exact keyInput_streamed hresolved hdsa hproc key mode parts
  · next hproc => exact keyInput_gathered hresolved hdsa hproc key mode parts

namespace Engine

variable {e : Engine} {scheme : Scheme} {key : Key} {mode : OperationMode} {message : Bytes}
  {parts : List Bytes} {secret : KeySecret} {pair : KeyPair}

/-! ## Giving up -/

/-- An engine at rest has nothing to give up, and nothing to give back. -/
theorem Coherent.cancel_of_rest (h : e.Coherent scheme) (hstate : e.state = .uninitialized)
    (p : Pool (Logged (Software ops))) : e.cancel p = (e, p) := by
  rw [cancel, abandon_of_rest hstate]
  dsimp only
  rw [giveBack_of_none (h.idle hstate), ← hstate]

/-- **An operation that is given up leaves its session idle or closed**, and calls on no other. -/
theorem cancel_settles {op : Option SoftwareOperation} (hstate : e.state = .initialized)
    (hlease : e.lease = some ⟨session, true⟩) (hslot : p.slot? session = some op)
    (hopened : 0 < p.opened) :
    (∃ pending, (e.cancel p).1 = { e with state := .uninitialized, lease := none, pending })
      ∧ p.WorksOn session (e.cancel p).2
      ∧ (p.Regains session (e.cancel p).2 ∨ p.Loses session (e.cancel p).2) := by
  have hparted := parted hstate hlease p
  unfold cancel
  generalize e.abandon p = out at hparted ⊢
  cases hparted with
  | @kept q pending _ _ _ _ hends hop =>
      have hworks : p.WorksOn session q := .operate hop
      have hrest : q.slot? session = some none := slot?_of_ends hslot hends hop
      obtain ⟨_, hpool, _⟩ := Lease.operate_cases hop
      refine ⟨⟨pending, rfl⟩, ⟨hworks.calls, hworks.slot?_eq⟩, .inl ⟨?_, ?_, hrest⟩⟩
      · show session :: q.idle = _
        rw [hpool]
      · show q.opened = _
        rw [hpool]
  | @closed lease' q pending hend =>
      have hbefore : p.WorksOn session q ∧ q.idle = p.idle ∧ q.opened = p.opened := by
        cases hend with
        | silent => exact ⟨.refl session p, rfl, rfl⟩
        | called _ hop =>
            obtain ⟨_, hpool, _⟩ := Lease.operate_cases hop
            exact ⟨.operate hop, by rw [hpool], by rw [hpool]⟩
      obtain ⟨hworks, hidle, hsame⟩ := hbefore
      refine ⟨⟨pending, rfl⟩, hworks.trans (.discard session q), .inr ⟨hidle, ?_, ?_⟩⟩
      · show q.opened - 1 + 1 = p.opened
        omega
      · exact (Sessions.slot?_close q.token.token.sessions session session).trans (if_pos rfl)

/-! ## What the token answers -/

/-- Winding up asks the token for a signature, -/
theorem windUpResult_sign (e : Engine) (session : SessionId) (input : Option Bytes) :
    windUpResult .sign ((⟨session, true⟩ : Lease).operate (e.windUpPrimitive .sign input) p).1
      = windUpResult .sign (p.token.token.sign session input).1 := by
  cases input <;> rfl

/-- or for a verdict on the placeholder. -/
theorem windUpResult_verify (e : Engine) (session : SessionId) (input : Option Bytes) :
    windUpResult .verify ((⟨session, true⟩ : Lease).operate (e.windUpPrimitive .verify input) p).1
      = windUpResult .verify
        (p.token.token.verify session input e.placeholderSignature).1 := by
  cases input <;> rfl

/-- **The token does what it is asked to.** Where the input is not gathered raw, an operation on a
    pair of the token is ended well, if signatures can be made. -/
theorem windUpResult_closing (hsuits : scheme.Suits (pair.keyFor mode))
    (hholds : p.token.token.Holds secret pair) (hraw : ∀ rule, scheme.processing ≠ .raw rule)
    (hsigns : mode = .sign → ops.Signs secret)
    (hslot : p.slot? session = some (some (scheme.operation (pair.keyFor mode) mode parts))) :
    windUpResult mode ((⟨session, true⟩ : Lease).operate
      ((closing scheme (pair.keyFor mode) mode session parts).windUpPrimitive mode
        (scheme.lastInput? (pair.keyFor mode) parts.flatten)) p).1 = .ok () := by
  have hparams := hholds.params mode
  have hdsa := hsuits.family_ne_dsa hparams
  cases mode with
  | sign =>
      have hdigest : scheme.algorithm.digest ≠ none := fun hnone => by
        obtain ⟨rule, hproc⟩ := hsuits.resolved.raw_of_digest hdsa hnone
        exact hraw rule hproc
      rw [windUpResult_sign, Software.sign,
        Software.complete_operation hsuits.resolved hdsa hslot (hholds.stored .sign)]
      exact windUpResult_of_signature (hsuits.sign_isOk hparams (hsigns rfl) hdigest _)
  | verify =>
      rw [windUpResult_verify, Software.verify,
        Software.complete_operation hsuits.resolved hdsa hslot (hholds.stored .verify)]
      exact windUpResult_of_verdict fun code => hsuits.denies_of_verify hparams _

/-! ## Sessions that are kept -/

/-- Checking a key leaves sessions, settings and keys alone. -/
theorem accept_same (e : Engine) (key : Key) (mode : OperationMode)
    (p : Pool (Logged (Software ops))) :
    ∃ t, (e.accept key mode p).2 = { p with token := t } ∧ t.token = p.token.token
      ∧ Logged.Since (fun event => ¬ event.Closes) p.token t := by
  rcases e.accept_pool key mode p with hpool | hpool
  · exact ⟨p.token, hpool, rfl, .refl _⟩
  · refine ⟨_, hpool, rfl, ?_⟩
    exact (Logged.Since.refl _).answer
      (rfl : Token.answer (.mechanismInfo e.scheme.mechanism) p.token = (_, _))
      (by rintro ⟨_, hclose⟩; cases hclose)

/-- A start that succeeds is in the session that is held. -/
theorem start_of_rested {e' : Engine} (hlease : e.lease = some ⟨session, false⟩)
    (h : e.start p = (.ok (), e', q)) :
    e' = { e with
        pending := e.pending.reset, lease := some ⟨session, true⟩, state := .initialized }
      ∧ q.idle = p.idle ∧ q.opened = p.opened
      ∧ Logged.Since (fun event => ¬ event.Closes) p.token q.token := by
  have hstarted := e.started p
  rw [h] at hstarted
  cases hstarted with
  | begun _ _ hobtained hinit =>
      rw [obtainLease, hlease] at hobtained
      obtain ⟨hsame, rfl⟩ := Prod.mk.inj hobtained
      obtain rfl := Except.ok.inj hsame
      obtain ⟨rfl, hpool, hanswer⟩ := Lease.operate_cases hinit
      exact ⟨rfl, by rw [hpool], by rw [hpool],
        (Logged.Since.refl _).answer hanswer (Token.Event.not_closes_of_operate rfl)⟩

section

/-! An operation on a pair of the token is under way, and can be ended there. -/

variable (h : Serves scheme (pair.keyFor mode) mode message e p) (hkeeps : p.KeepsSessions)
  (hsuits : scheme.Suits (pair.keyFor mode)) (hholds : p.token.token.Holds secret pair)
  (hraw : ∀ rule, scheme.processing ≠ .raw rule) (hsigns : mode = .sign → ops.Signs secret)

include h hkeeps hsuits hholds hraw hsigns

/-- An operation that is given up is ended on the token, and its session kept. -/
theorem Serves.abandon_keeps :
    ∃ session pending q, e.lease = some ⟨session, true⟩
      ∧ e.abandon p
        = ({ e with state := .uninitialized, lease := some ⟨session, false⟩, pending }, q)
      ∧ q.idle = p.idle ∧ q.opened = p.opened ∧ q.slot? session = some none
      ∧ Logged.Since (fun event => ¬ event.Closes) p.token q.token := by
  obtain ⟨session, parts, rfl, rfl, hslot⟩ := h
  have hinput := windUpInput_closing mode session parts hsuits hraw
  have hresult := windUpResult_closing hsuits hholds hraw hsigns hslot
  have hends := windUpPrimitive_ends (closing scheme (pair.keyFor mode) mode session parts) mode
    (scheme.lastInput? (pair.keyFor mode) parts.flatten)
  rcases hop : (⟨session, true⟩ : Lease).operate
    ((closing scheme (pair.keyFor mode) mode session parts).windUpPrimitive mode
      (scheme.lastInput? (pair.keyFor mode) parts.flatten)) p with ⟨result, lease', q⟩
  obtain ⟨pending, hwindUp⟩ := windUp_called rfl hinput hop
  rw [hop] at hresult
  rw [hresult] at hwindUp
  have hrest := slot?_of_ends hslot hends hop
  obtain ⟨rfl, hpool, hanswer⟩ := Lease.operate_cases hop
  rw [hends.activeAfter] at hwindUp
  have howns : (p.config.explicitCancel && (⟨session, true⟩ : Lease).ownsObjects p) = true := by
    rw [hkeeps.explicit]
    exact hkeeps.objects
  refine ⟨session, pending, q, rfl, ?_, by rw [hpool], by rw [hpool], hrest,
    (Logged.Since.refl _).answer hanswer (Token.Event.not_closes_of_operate rfl)⟩
  exact abandon_of_windUp (e := underWay scheme (pair.keyFor mode) mode session parts) rfl rfl rfl
    howns hwindUp

/-- **Then the session is idle after a cancel**, and none was closed. -/
theorem Serves.cancel_regains :
    ∃ session, e.lease = some ⟨session, true⟩ ∧ p.Regains session (e.cancel p).2
      ∧ Logged.Since (fun event => ¬ event.Closes) p.token (e.cancel p).2.token := by
  obtain ⟨session, pending, q, hlease, habandon, hidle, hopened, hslot, hunclosed⟩ :=
    h.abandon_keeps hkeeps hsuits hholds hraw hsigns
  refine ⟨session, hlease, ?_⟩
  rw [cancel, habandon]
  exact ⟨⟨congrArg (session :: ·) hidle, hopened, hslot⟩, hunclosed⟩

/-- **And the next operation goes on in the session**, if it is the start of one that gives the
    other up. -/
theorem Serves.init_keeps {key' : Key} {mode' : OperationMode}
    (hinit : (e.handle (.init key' mode') p).1 = .ok .done) :
    let out := e.handle (.init key' mode') p
    (∃ pending, out.2.1 = { e with key := some key', mode := some mode', pending })
      ∧ out.2.2.idle = p.idle ∧ out.2.2.opened = p.opened
      ∧ Logged.Since (fun event => ¬ event.Closes) p.token out.2.2.token := by
  have hstate : e.state = .initialized := by
    obtain ⟨session, parts, rfl, _⟩ := h
    rfl
  simp only [handle] at hinit ⊢
  obtain ⟨t, hpool, htoken, hchecked⟩ := e.accept_same key' mode' p
  rcases haccept : e.accept key' mode' p with ⟨fault | u, r⟩
  · rw [startWith_of_rejected haccept] at hinit
    cases hinit
  · rw [haccept] at hpool
    obtain rfl : r = { p with token := t } := hpool
    -- the check has not changed what the operation is on
    have hserves : Serves scheme (pair.keyFor mode) mode message e { p with token := t } :=
      h.of_slots fun session => by simp only [Pool.slot?, htoken]
    obtain ⟨session, pending, q, hlease, habandon, hidle, hopened, _, hunclosed⟩ :=
      hserves.abandon_keeps ⟨htoken.symm ▸ hkeeps.objects, hkeeps.explicit⟩ hsuits
        (show t.token.Holds secret pair from htoken.symm ▸ hholds) hraw hsigns
    rw [startWith_of_accepted haccept, habandon] at hinit ⊢
    rcases hstart : ({ e with
      key := some key', mode := some mode', state := .uninitialized,
      lease := some ⟨session, false⟩, pending } : Engine).start q with ⟨err | u, e', r⟩
    · rw [hstart] at hinit
      cases hinit
    · obtain ⟨rfl, hidle', hopened', hunclosed'⟩ := start_of_rested rfl hstart
      refine ⟨⟨pending.reset, ?_⟩, hidle'.trans hidle, hopened'.trans hopened,
        (hchecked.trans hunclosed).trans hunclosed'⟩
      rw [hlease, hstate]

end

end Engine

end Cryptoki
