import Cryptoki.Proofs.Engine.Keeps
import Cryptoki.Token.Scripted

/-!
# `Cryptoki.Proofs.Engine.Lifecycle` — an engine holds a session exactly while it is initialized

An engine takes up its session and lets go of it in many places, most of them with exits for tokens
that fail. Two conditions hold between all of its calls, whatever the token answers and whatever
other users do to the pool meanwhile. `Bound` is about the key and the pending input, and holds in
the middle of calls too; `Coherent` adds that state and session agree. They are kept by one call, so
they hold after any calls.

Giving the session back is a matter of counting: a call moves the count of sessions in use by what it
moves the engine's own, so what other users hold stays as it is.

## Contents
- `Engine.Turn`, `Engine.after` — a call with the pool it finds, and the engine after some.
- `Engine.turnsOver` — calls over a pool that nobody else uses.
- `Engine.Bound`, `Engine.Coherent` — the conditions.
- `Engine.start_coherent`, `Engine.abandon_bound`, `Engine.handle_coherent` — what keeps them.
- `Engine.handle_inUse` — sessions in use are accounted for.
- `Engine.lifecycle` — the life of an engine.
-/

namespace Cryptoki.Engine

variable {τ : Type} [Token τ] {scheme : Scheme} {e : Engine}

/-! ## Runs -/

/-- A call of an engine, and the pool it finds: what its own calls, other users and the token have
    made of it by then. -/
structure Turn (τ : Type) where
  request : Request
  pool : Pool τ

/-- The engine after some calls. -/
def after (e : Engine) (turns : List (Turn τ)) : Engine :=
  turns.foldl (fun e turn => (e.handle turn.request turn.pool).2.1) e

/-- Calls one after the other over a pool that nobody else uses, and the pool after them. -/
def turnsOver (e : Engine) (p : Pool τ) : List Request → List (Turn τ) × Pool τ
  | [] => ([], p)
  | request :: requests =>
    let out := (e.handle request p).2
    let (turns, q) := out.1.turnsOver out.2 requests
    (⟨request, p⟩ :: turns, q)

/-! ## Conditions -/

/-- The engine keeps its scheme; a bound key is one that the scheme accepts for the mode, and the
    pending input has the shape that the scheme asks for. -/
structure Bound (scheme : Scheme) (e : Engine) : Prop where
  scheme_eq : e.scheme = scheme
  accepted : ∀ key, e.key = some key →
    ∃ mode, e.mode = some mode ∧ e.scheme.acceptKey key mode = .ok ()
  fits : e.pending.Fits e.scheme.processing

/-- State and session agree. -/
structure Coherent (scheme : Scheme) (e : Engine) : Prop extends Bound scheme e where
  idle : e.state = .uninitialized → e.lease = none
  busy : e.state = .initialized →
    ∃ session key, e.lease = some ⟨session, true⟩ ∧ e.key = some key

/-- An engine at rest is coherent if it holds no session. -/
theorem Bound.coherent (h : e.Bound scheme) (hstate : e.state = .uninitialized)
    (hlease : e.lease = none) : e.Coherent scheme :=
  ⟨h, fun _ => hlease, fun hinit => absurd (hstate.symm.trans hinit) (by decide)⟩

/-- An engine is made for what name and mechanism were resolved to. -/
theorem new_ok {name : String} {mechanism : Mechanism} (h : new name mechanism = .ok e) :
    ∃ scheme, Scheme.resolve name mechanism = .ok scheme ∧ e = ofScheme scheme := by
  unfold new at h
  split at h
  · next scheme hresolve => exact ⟨scheme, hresolve, (Except.ok.inj h).symm⟩
  · cases h

theorem ofScheme_coherent (scheme : Scheme) : (ofScheme scheme).Coherent scheme := by
  refine Bound.coherent ⟨rfl, ?_, PendingInput.fits_new scheme.processing⟩ rfl rfl
  intro key hkey
  exact absurd hkey (by simp [ofScheme])

/-- An engine that is initialized has all that an operation needs. -/
theorem Coherent.operation (h : e.Coherent scheme) (hstate : e.state = .initialized) :
    ∃ session key mode, e.lease = some ⟨session, true⟩ ∧ e.key = some key ∧ e.mode = some mode := by
  obtain ⟨session, key, hlease, hkey⟩ := h.busy hstate
  obtain ⟨mode, hmode, _⟩ := h.accepted key hkey
  exact ⟨session, key, mode, hlease, hkey, hmode⟩

/-- A session that is held has an operation under way. -/
theorem Coherent.busy_of_lease {lease : Lease} (h : e.Coherent scheme)
    (hlease : e.lease = some lease) :
    e.state = .initialized ∧ lease = ⟨lease.session, true⟩ := by
  cases hstate : e.state with
  | uninitialized => cases hlease.symm.trans (h.idle hstate)
  | initialized =>
      obtain ⟨session, key, hheld, _⟩ := h.busy hstate
      obtain rfl := Option.some.inj (hlease.symm.trans hheld)
      exact ⟨rfl, rfl⟩

/-! ## Starting -/

/-- A refusal takes the key at most, and the session always. -/
theorem Bound.afterRefusal (h : e.Bound scheme) (mode : OperationMode) (code : ReturnCode) :
    (e.afterRefusal mode code).2.Bound scheme
      ∧ (e.afterRefusal mode code).2.lease = none
      ∧ (e.afterRefusal mode code).2.state = e.state := by
  unfold Engine.afterRefusal
  split
  · refine ⟨⟨h.scheme_eq, ?_, h.fits⟩, rfl, rfl⟩
    intro key hkey
    exact absurd hkey (by simp)
  · exact ⟨⟨h.scheme_eq, h.accepted, h.fits⟩, rfl, rfl⟩

theorem afterRefusal_lease (e : Engine) (mode : OperationMode) (code : ReturnCode) :
    (e.afterRefusal mode code).2.lease = none := by
  unfold afterRefusal
  split <;> rfl

/-- Starting leads to a coherent engine, from one that holds no session or has a key to use it
    with. -/
theorem start_coherent (p : Pool τ) (h : e.Bound scheme) (hstate : e.state = .uninitialized)
    (hlease : e.key = none ∨ e.mode = none → e.lease = none) :
    (e.start p).2.1.Coherent scheme := by
  have hstarted := e.started p
  generalize e.start p = out at hstarted ⊢
  cases hstarted with
  | unbound hnone => exact h.coherent hstate (hlease hnone)
  | starved hnone => exact h.coherent hstate hnone
  | @refused key mode lease lease' q r code =>
      obtain ⟨hbound, hnone, hsame⟩ := h.afterRefusal mode code
      exact hbound.coherent (hsame.trans hstate) hnone
  | @begun key mode lease lease' q r hkey hmode hobtained hinit =>
      obtain ⟨rfl, _, _⟩ := Lease.operate_cases hinit
      refine ⟨⟨h.scheme_eq, h.accepted, ?_⟩, fun hun => ?_, fun _ => ⟨lease.session, key, rfl, hkey⟩⟩
      · show e.pending.reset.Fits e.scheme.processing
        rw [h.fits.reset_eq_new]
        exact PendingInput.fits_new _
      · cases hun

/-- An operation that is under way has the key, the mode and the scheme it was started with. -/
theorem start_ok {e' : Engine} {p q : Pool τ} (h : e.start p = (.ok (), e', q)) :
    e'.key = e.key ∧ e'.mode = e.mode ∧ e'.state = .initialized := by
  have hstarted := e.started p
  rw [h] at hstarted
  cases hstarted with
  | begun => exact ⟨rfl, rfl, rfl⟩

theorem start_error {e' : Engine} {p q : Pool τ} {err : EngineError}
    (h : e.start p = (.error err, e', q)) : e'.state = e.state := by
  have hstarted := e.started p
  rw [h] at hstarted
  cases hstarted with
  | unbound => rfl
  | starved => rfl
  | refused =>
      unfold afterRefusal
      split <;> rfl

theorem Coherent.start {e' : Engine} {p q : Pool τ} {result : Except EngineError Unit}
    (h : e.Coherent scheme) (hstate : e.state = .uninitialized)
    (hstart : e.start p = (result, e', q)) : e'.Coherent scheme := by
  have hcoherent := start_coherent p h.toBound hstate fun _ => h.idle hstate
  rw [hstart] at hcoherent
  exact hcoherent

/-- Once started, an engine is coherent and initialized. -/
theorem Coherent.ensureStarted {e' : Engine} {p q : Pool τ} (h : e.Coherent scheme)
    (hstart : e.ensureStarted p = (.ok (), e', q)) :
    e'.Coherent scheme ∧ e'.key = e.key ∧ e'.mode = e.mode ∧ e'.state = .initialized := by
  unfold Engine.ensureStarted at hstart
  split at hstart
  · next hstate =>
      obtain ⟨_, rfl, rfl⟩ := hstart
      exact ⟨h, rfl, rfl, hstate⟩
  · next hstate =>
      exact ⟨h.start hstate hstart, start_ok hstart⟩

/-! ## Giving up -/

/-- Giving an operation up leaves the engine at rest, with its key and mode. -/
theorem abandon_bound (p : Pool τ) (h : e.Bound scheme) :
    (e.abandon p).1.Bound scheme ∧ (e.abandon p).1.state = .uninitialized := by
  have habandoned := e.abandoned p
  generalize e.abandon p = out at habandoned ⊢
  cases habandoned with
  | idle hstate => exact ⟨h, hstate⟩
  | bare => exact ⟨⟨h.scheme_eq, h.accepted, h.fits⟩, rfl⟩
  | rested => exact ⟨⟨h.scheme_eq, h.accepted, h.fits⟩, rfl⟩
  | discarded _ _ _ _ hpending => exact ⟨⟨h.scheme_eq, h.accepted, hpending h.fits⟩, rfl⟩
  | kept _ _ _ _ _ _ hpending => exact ⟨⟨h.scheme_eq, h.accepted, hpending h.fits⟩, rfl⟩

theorem giveBack_rest (e : Engine) (p : Pool τ) :
    (e.giveBack p).1.state = .uninitialized := by
  unfold giveBack
  split <;> rfl

theorem giveBack_coherent (p : Pool τ) (h : e.Bound scheme) :
    (e.giveBack p).1.Coherent scheme := by
  unfold giveBack
  split
  · next hlease => exact Bound.coherent ⟨h.scheme_eq, h.accepted, h.fits⟩ rfl hlease
  · exact Bound.coherent ⟨h.scheme_eq, h.accepted, h.fits⟩ rfl rfl

/-! ## Every call -/

/-- A key is bound only after the scheme has accepted it. -/
theorem acceptKey_of_accept {key : Key} {mode : OperationMode} {p q : Pool τ}
    (h : e.accept key mode p = (.ok (), q)) : e.scheme.acceptKey key mode = .ok () := by
  unfold accept at h
  split at h
  · exact absurd (congrArg Prod.fst h) (by simp)
  · next hkey => exact hkey

/-- A key is bound together with a mode that the scheme accepts it for. -/
theorem Bound.bind {key : Key} {mode : OperationMode} (h : e.Bound scheme)
    (hkey : scheme.acceptKey key mode = .ok ()) :
    ({ e with key := some key, mode := some mode } : Engine).Bound scheme := by
  rw [← h.scheme_eq] at hkey
  refine ⟨h.scheme_eq, ?_, h.fits⟩
  intro key' hkey'
  obtain rfl := Option.some.inj hkey'
  exact ⟨mode, rfl, hkey⟩

theorem startWith_coherent (h : e.Coherent scheme) (key : Key) (mode : OperationMode)
    (p : Pool τ) : (e.startWith key mode p).2.1.Coherent scheme := by
  unfold startWith
  cases haccept : e.accept key mode p with
  | mk check q =>
      obtain ⟨hbound, hstate⟩ := abandon_bound q h.toBound
      dsimp only
      cases check with
      | error fault =>
          refine giveBack_coherent _ ⟨hbound.scheme_eq, ?_, hbound.fits⟩
          intro key hkey
          exact absurd hkey (by simp)
      | ok u =>
          have hkey := acceptKey_of_accept haccept
          rw [h.scheme_eq] at hkey
          exact start_coherent _ (hbound.bind hkey) hstate (by simp)

/-- A coherent engine takes parts in in one of the ways listed. -/
theorem Coherent.updated (h : e.Coherent scheme) (data : Bytes) (p : Pool τ) :
    Updated e data p (e.update data p) := by
  apply Engine.updated
  intro e' q hstart
  obtain ⟨hcoherent, _, _, hstate⟩ := h.ensureStarted hstart
  obtain ⟨session, key, mode, hlease, _, hmode⟩ := hcoherent.operation hstate
  exact ⟨mode, ⟨session, true⟩, hmode, hlease⟩

theorem update_coherent (h : e.Coherent scheme) (data : Bytes) (p : Pool τ) :
    (e.update data p).2.1.Coherent scheme := by
  have hupdated := h.updated data p
  generalize e.update data p = out at hupdated ⊢
  cases hupdated with
  | notStarted hstate hstart => exact h.start hstate hstart
  | empty hstart => exact (h.ensureStarted hstart).1
  | @gathered e' q hstart =>
      obtain ⟨hcoherent, _⟩ := h.ensureStarted hstart
      exact ⟨⟨hcoherent.scheme_eq, hcoherent.accepted, hcoherent.fits.add data⟩, hcoherent.idle,
        hcoherent.busy⟩
  | @forwarded e' q r mode lease lease' hstart _ _ _ hlease hop =>
      obtain ⟨hcoherent, _, _, hstate⟩ := h.ensureStarted hstart
      obtain ⟨rfl, _, _⟩ := Lease.operate_cases hop
      obtain ⟨session, key, hheld, hkey⟩ := hcoherent.busy hstate
      rw [hlease] at hheld
      obtain rfl := Option.some.inj hheld
      refine ⟨⟨hcoherent.scheme_eq, hcoherent.accepted, hcoherent.fits.add data⟩, ?_, ?_⟩
      · intro hun
        exact absurd (hstate.symm.trans hun) (by decide)
      · intro _
        exact ⟨session, key, rfl, hkey⟩
  | aborted hstart =>
      obtain ⟨hcoherent, _⟩ := h.ensureStarted hstart
      exact Bound.coherent ⟨hcoherent.scheme_eq, hcoherent.accepted, hcoherent.fits⟩ rfl rfl

theorem expectMode_ok {mode : OperationMode} (h : e.expectMode mode = .ok ()) :
    e.mode = some mode := by
  unfold expectMode at h
  split at h
  · exact absurd h (by simp)
  · next bound hbound =>
      split at h
      · next heq => rw [hbound, heq]
      · exact absurd h (by simp)

theorem finish_coherent (h : e.Coherent scheme) {request : Request} {mode : OperationMode}
    (p : Pool τ) (hmode : request.finishes? = some mode) :
    (e.handle request p).2.1.Coherent scheme := by
  have hfinished := finished (e := e) p hmode
  generalize (e.handle request p).2 = out at hfinished ⊢
  cases hfinished with
  | wrongMode => exact h
  | notStarted _ hstate hstart => exact h.start hstate hstart
  | leaseless _ hstart hlease =>
      obtain ⟨hcoherent, _⟩ := h.ensureStarted hstart
      exact Bound.coherent ⟨hcoherent.scheme_eq, hcoherent.accepted, hcoherent.fits⟩ rfl hlease
  | ended _ hstart _ _ hpending =>
      obtain ⟨hcoherent, _⟩ := h.ensureStarted hstart
      exact Bound.coherent
        ⟨hcoherent.scheme_eq, hcoherent.accepted, hpending hcoherent.fits⟩ rfl rfl

/-- **A call keeps an engine coherent**, whatever the token answers. -/
theorem handle_coherent (h : e.Coherent scheme) (request : Request) (p : Pool τ) :
    (e.handle request p).2.1.Coherent scheme := by
  cases request with
  | init key mode => exact startWith_coherent h key mode p
  | update data => exact update_coherent h data p
  | sign => exact finish_coherent h p rfl
  | verify signature => exact finish_coherent h p rfl
  | cancel => exact giveBack_coherent _ (abandon_bound p h.toBound).1

/-- So do any calls, with anything between them. -/
theorem after_coherent (h : e.Coherent scheme) (turns : List (Turn τ)) :
    (e.after turns).Coherent scheme := by
  induction turns generalizing e with
  | nil => exact h
  | cons turn turns ih => exact ih (handle_coherent h turn.request turn.pool)

/-! ## Sessions in use -/

/-- The count of sessions that the engine holds. -/
def held (e : Engine) : Nat := if e.lease.isSome then 1 else 0

theorem held_of_none (h : e.lease = none) : e.held = 0 := by simp [held, h]

theorem length_lease (e : Engine) : e.lease.toList.length = e.held := by
  unfold held
  cases e.lease <;> rfl

/-- **A call accounts for its sessions**: it moves the count of sessions in use by what it moves the
    engine's own, so the sessions of others stay as many. -/
theorem handle_inUse {p : Pool τ} {n : Nat} (request : Request) (h : p.InUse (n + e.held)) :
    (e.handle request p).2.2.InUse (n + (e.handle request p).2.1.held) := by
  rw [← length_lease] at h ⊢
  exact (keeps_inUse n).handle h request

/-! ## The life of an engine -/

/-- A call that gets past the mode check leaves the engine at rest and without a session; the
    session it held goes back to the pool right after the last primitive. -/
theorem finish_gives_back (hcoherent : e.Coherent scheme) {request : Request}
    {mode : OperationMode} (p : Pool τ) (hfinishes : request.finishes? = some mode)
    (hmode : e.expectMode mode = .ok ()) :
    (e.handle request p).2.1.state = .uninitialized ∧ (e.handle request p).2.1.lease = none
      ∧ ∀ lease, e.lease = some lease → ∃ (lease' : Lease) (r : Pool τ),
          lease'.session = lease.session ∧ r.idle = p.idle ∧ r.opened = p.opened
            ∧ (e.handle request p).2.2 = lease'.close r := by
  have hfinished := finished (e := e) p hfinishes
  generalize (e.handle request p).2 = out at hfinished ⊢
  cases hfinished with
  | wrongMode herr => exact absurd (hmode.symm.trans herr) (by simp)
  | notStarted _ hstate hstart =>
      have hafter := hcoherent.start hstate hstart
      have hrest := (start_error hstart).trans hstate
      refine ⟨hrest, hafter.idle hrest, ?_⟩
      intro lease hlease
      exact absurd ((hcoherent.idle hstate).symm.trans hlease) (by simp)
  | leaseless _ hstart hlease =>
      obtain ⟨hafter, _, _, hstate⟩ := hcoherent.ensureStarted hstart
      obtain ⟨session, key, hheld, _⟩ := hafter.busy hstate
      exact absurd (hlease.symm.trans hheld) (by simp)
  | @ended e' q r lease lease' pending _ hstart hlease hend =>
      refine ⟨rfl, rfl, fun held hheld => ⟨lease', r, ?_⟩⟩
      have hstate : e.state = .initialized := by
        cases hstate : e.state with
        | initialized => rfl
        | uninitialized => exact absurd ((hcoherent.idle hstate).symm.trans hheld) (by simp)
      rw [ensureStarted, hstate] at hstart
      obtain ⟨_, rfl, rfl⟩ := hstart
      obtain rfl := Option.some.inj (hlease.symm.trans hheld)
      cases hend with
      | silent => exact ⟨rfl, rfl, rfl, rfl⟩
      | called _ hop =>
          obtain ⟨rfl, hpool, _⟩ := Lease.operate_cases hop
          exact ⟨rfl, by rw [hpool], by rw [hpool], rfl⟩

/-- **The life of an engine.** After any calls, over any token and with anything between them, the
    engine is initialized exactly if it holds a session; an operation is then under way, with a key
    that the scheme accepts for the mode. A call that gets past the mode check leaves the engine
    at rest and without a session, whatever the token answers: the session it held is given back
    after the last primitive, and of all sessions in use those of others stay. -/
theorem lifecycle (scheme : Scheme) (turns : List (Turn τ)) :
    let e := (ofScheme scheme).after turns
    (e.state = .initialized ↔ e.lease.isSome = true)
      ∧ (e.state = .uninitialized → e.lease = none)
      ∧ (∀ lease, e.lease = some lease → lease.active = true
          ∧ ∃ key mode, e.key = some key ∧ e.mode = some mode
            ∧ scheme.acceptKey key mode = .ok ())
      ∧ ∀ (request : Request) (mode : OperationMode) (p : Pool τ),
          request.finishes? = some mode → e.expectMode mode = .ok () →
          let out := (e.handle request p).2
          out.1.state = .uninitialized ∧ out.1.lease = none
            ∧ (∀ lease, e.lease = some lease → ∃ (lease' : Lease) (q : Pool τ),
                lease'.session = lease.session ∧ q.idle = p.idle ∧ q.opened = p.opened
                  ∧ out.2 = lease'.close q)
            ∧ ∀ n, p.InUse (n + e.held) → out.2.InUse n := by
  intro e
  have h : e.Coherent scheme := after_coherent (ofScheme_coherent scheme) turns
  refine ⟨⟨?_, ?_⟩, h.idle, ?_, ?_⟩
  · intro hstate
    obtain ⟨session, key, hlease, _⟩ := h.busy hstate
    rw [hlease]
    rfl
  · intro hlease
    cases hstate : e.state with
    | initialized => rfl
    | uninitialized =>
        rw [h.idle hstate] at hlease
        exact absurd hlease (by simp)
  · intro lease hlease
    cases hstate : e.state with
    | uninitialized => exact absurd ((h.idle hstate).symm.trans hlease) (by simp)
    | initialized =>
        obtain ⟨session, key, hheld, hkey⟩ := h.busy hstate
        obtain ⟨mode, hmode, haccept⟩ := h.accepted key hkey
        rw [h.scheme_eq] at haccept
        obtain rfl := Option.some.inj (hlease.symm.trans hheld)
        exact ⟨rfl, key, mode, hkey, hmode, haccept⟩
  · intro request mode p hfinishes hmode
    obtain ⟨hstate, hlease, hgiven⟩ := finish_gives_back h p hfinishes hmode
    refine ⟨hstate, hlease, hgiven, fun n hinUse => ?_⟩
    have hafter := handle_inUse request hinUse
    rw [held_of_none hlease] at hafter
    exact hafter

/-- The private half of the key that a token with one DSA pair has. -/
def dsaKey : Key := ⟨⟨2⟩, .privateKey, .dsa [0xff]⟩

/-- Calls of a DSA engine over a pool of its own, and the pool after them. The next call of some name
    fails on the token. -/
def dsaTurns (failing : String) (requests : List Request) : List (Turn Scripted) × Pool Scripted :=
  let token := ((Scripted.empty none false).addPair dsaSignatureLength).2.2
  (ofScheme ⟨.sha1WithDsa, .dsa, .digestHere .sha1⟩).turnsOver
    (.empty (token.failNext failing .deviceError) {}) requests

/-- The token fails to sign, and the session that the engine held waits for its next use. -/
theorem lifecycle_of_failing :
    let scheme : Scheme := ⟨.sha1WithDsa, .dsa, .digestHere .sha1⟩
    let done := dsaTurns "C_Sign" [.init dsaKey .sign, .update [1]]
    let e := (ofScheme scheme).after done.1
    let out := e.handle .sign done.2
    e.state = .initialized ∧ e.lease.isSome = true ∧ scheme.acceptKey dsaKey .sign = .ok ()
      ∧ out.1 = .error (.tokenFailure .sign .deviceError)
      ∧ out.2.1.state = .uninitialized ∧ out.2.1.lease = none
      ∧ out.2.2.idle = [⟨1⟩] ∧ out.2.2.InUse 0 := by
  intro scheme done e out
  have hstate : e.state = .initialized := by decide +kernel
  have hlease : e.lease = some ⟨⟨1⟩, true⟩ := by decide +kernel
  have hkey : e.key = some dsaKey := by decide +kernel
  have hmode : e.mode = some .sign := by decide +kernel
  have hexpect : e.expectMode .sign = .ok () := by decide +kernel
  have hinUse : done.2.InUse (0 + e.held) := by
    show done.2.opened = done.2.idle.length + (0 + e.held)
    decide +kernel
  obtain ⟨hiff, _, hheld, hfinish⟩ := lifecycle scheme done.1
  obtain ⟨_, key, mode, hsame, hsame', haccept⟩ := hheld _ hlease
  obtain rfl := Option.some.inj (hkey.symm.trans hsame)
  obtain rfl := Option.some.inj (hmode.symm.trans hsame')
  obtain ⟨hrest, hleft, _, hgiven⟩ := hfinish .sign .sign done.2 rfl hexpect
  exact ⟨hstate, hiff.mp hstate, haccept, by decide +kernel, hrest, hleft, by decide +kernel,
    hgiven 0 hinUse⟩

end Cryptoki.Engine
