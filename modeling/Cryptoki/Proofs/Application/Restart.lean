import Cryptoki.Proofs.Engine.Binding
import Cryptoki.Proofs.Pool.Housed

/-!
# `Cryptoki.Proofs.Application.Restart` — an engine that starts again finds a session

An engine that is initialized gives its operation up before it starts another. It keeps its session
for that, or closes it, and then there is room in the pool for another, however many sessions others
use and whatever the token does. So the engine does not wait for a session that only it could give
back.

Over the token in memory, closing the session makes room on the token as well, whatever its limit,
if the session was still open. It was, unless somebody has closed it past the pool.

## Contents
- `Pool.Available` — nobody has to wait for a session.
- `Pool.Counted`, `keeps_counted` — the count of sessions, with all leases.
- `Engine.start_noSession`, `Engine.startWith_noSession` — where no session was to be had.
- `Application.restart_available`, `Application.restart_acquires` — engines that start again, over
  any token and over the token in memory.
- `Application.not_starved` — an engine does not starve itself.
-/

namespace Cryptoki

/-! ## Pools -/

section

variable {τ : Type} {p : Pool τ}

/-- A session is idle, or there is room for another: nobody has to wait until one is given back. -/
def Pool.Available (p : Pool τ) : Prop := p.idle ≠ [] ∨ p.opened < p.config.maxSessions

/-- The sessions opened are those idle and those of the leases, and no more than allowed. -/
def Pool.Counted (ls : List Lease) (p : Pool τ) : Prop :=
  p.InUse ls.length ∧ p.opened ≤ p.config.maxSessions

variable [Token τ]

/-- Where nobody has to wait, not all sessions are in use. -/
theorem Pool.Available.acquire_ne (h : p.Available) (n : Nat) :
    p.acquire.1 ≠ .error (.noSession (.allInUse n)) := by
  intro hwaited
  have hacquired := p.acquired
  generalize p.acquire = out at hacquired hwaited
  cases hacquired with
  | reused => cases hwaited
  | full hidle hfull =>
      rcases h with h | h
      · exact h hidle
      · exact Nat.not_lt.mpr hfull h
  | fresh => cases hwaited
  | refused =>
      simp only [openFailure] at hwaited
      split at hwaited <;> cases hwaited

/-- Closing the session of a lease makes room for another. -/
theorem Pool.Counted.discard_available {lease : Lease} {ls : List Lease}
    (h : p.Counted (lease :: ls)) : (lease.discard p).Available := by
  obtain ⟨hinUse, hbounded⟩ := h
  rw [Pool.InUse, List.length_cons] at hinUse
  right
  show p.opened - 1 < p.config.maxSessions
  omega

theorem keeps_bounded : Keeps fun _ (p : Pool τ) => p.opened ≤ p.config.maxSessions := by
  have hdiscard {lease : Lease} {p : Pool τ} (h : p.opened ≤ p.config.maxSessions) :
      (lease.discard p).opened ≤ (lease.discard p).config.maxSessions :=
    Nat.le_trans (Nat.sub_le _ _) h
  exact {
    acquire := by
      intro p q result h hacq
      have hacquired := p.acquired
      rw [hacq] at hacquired
      cases hacquired with
      | reused => exact h
      | full => exact h
      | fresh _ hroom => exact hroom
      | refused => exact h
    operate := by
      intro lease lease' p q primitive result h hop
      rw [(Lease.operate_cases hop).2.1]
      exact h
    close := by
      intro lease p h
      unfold Lease.close
      split
      · exact hdiscard h
      · exact h
    discard := hdiscard
    asked := fun _ h => h }

/-- **Each use of a lease keeps the count.** -/
theorem keeps_counted : KeepsAll fun ls (p : Pool τ) => p.Counted ls := by
  have hinUse : KeepsAll fun ls (p : Pool τ) => p.InUse ls.length := by
    refine ⟨fun hperm h => hperm.length_eq ▸ h, fun others => ?_⟩
    have hlength (l : Option Lease) :
        (l.toList ++ others).length = others.length + l.toList.length := by
      rw [List.length_append, Nat.add_comm]
    simp only [hlength]
    exact keeps_inUse others.length
  exact hinUse.and (.of_pool keeps_bounded)

end

/-- Where nobody has to wait, and the token has room as well, a session is to be had. -/
theorem Pool.Available.acquire_isOk {ops : KeyOperations} {p : Pool (Logged (Software ops))}
    (h : p.Available) (hroom : (Token.answer .openSession p.token.token).1.isOk = true) :
    p.acquire.1.isOk = true := by
  have hacquired := p.acquired
  generalize p.acquire = out at hacquired ⊢
  cases hacquired with
  | reused => rfl
  | full hidle hfull =>
      rcases h with h | h
      · exact absurd hidle h
      · exact absurd h (Nat.not_lt.mpr hfull)
  | fresh => rfl
  | refused _ _ hopen =>
      rw [(Logged.answer_eq hopen).1] at hroom
      cases hroom

/-! ## Engines -/

section

variable {τ : Type} [Token τ] {e : Engine} {p : Pool τ}

namespace Engine

/-- An engine that cannot start for want of a session held none. -/
theorem start_noSession {shortage : Shortage} (h : (e.start p).1 = .error (.noSession shortage)) :
    e.lease = none ∧ p.acquire.1 = .error (.noSession shortage) := by
  have hstarted := e.started p
  generalize e.start p = out at hstarted h
  cases hstarted with
  | unbound => cases h
  | starved hlease hacq =>
      obtain rfl := Except.error.inj h
      exact ⟨hlease, congrArg Prod.fst hacq⟩
  | refused =>
      simp only [afterRefusal] at h
      split at h <;> cases h
  | begun => cases h

/-- Starting with a key, it had none after the operation under way was given up. -/
theorem startWith_noSession {key : Key} {mode : OperationMode} {shortage : Shortage}
    (h : (e.startWith key mode p).1 = .error (.noSession shortage)) :
    (e.abandon (e.accept key mode p).2).1.lease = none
      ∧ (e.abandon (e.accept key mode p).2).2.acquire.1 = .error (.noSession shortage) := by
  rcases haccept : e.accept key mode p with ⟨fault | u, q⟩
  · rw [startWith_of_rejected haccept] at h
    cases h
  · rw [startWith_of_accepted haccept] at h
    exact start_noSession
      (e := { (e.abandon q).1 with key := some key, mode := some mode }) h

end Engine

end

/-! ## Applications -/

namespace Application

section

variable {τ : Type} [Token τ] {J : List Lease → Pool τ → Prop} {a : Application τ} {name : String}
  {e : Engine}

/-- An engine that is asked to start again keeps its session, or closes it in a pool for which all
    holds that each use of a lease keeps. -/
theorem abandon_cases (hJ : KeepsAll J) (h : J a.allLeases a.pool) (hcoherent : a.Coherent)
    (hget : a.engines.get? name = some e) (hstate : e.state = .initialized) (key : Key)
    (mode : OperationMode) :
    let abandoned := e.abandon (e.accept key mode a.pool).2
    abandoned.1.lease ≠ none
      ∨ ∃ held lease others p, e.lease = some held ∧ lease.session = held.session
        ∧ J (lease :: others) p ∧ abandoned.2 = lease.discard p := by
  intro abandoned
  obtain ⟨session, _, hlease, _⟩ := (hcoherent.engine hget).busy hstate
  have hfound := hJ.perm (leasesOf_perm_engine hget) h
  have hchecked := (hJ.uses _).accept (e := e) hfound key mode
  rcases (hJ.uses _).abandon_cases hstate hlease hchecked with hkept | ⟨lease, p, hsame, hJ, hpool⟩
  · exact .inl hkept
  · exact .inr ⟨_, lease, _, p, hlease, hsame, hJ, hpool⟩

/-- An engine that starts again holds a session, or does not wait for one. -/
theorem restart_available (h : a.pool.Counted a.allLeases) (hcoherent : a.Coherent)
    (hget : a.engines.get? name = some e) (hstate : e.state = .initialized) (key : Key)
    (mode : OperationMode) :
    let abandoned := e.abandon (e.accept key mode a.pool).2
    abandoned.1.lease ≠ none ∨ abandoned.2.Available := by
  intro abandoned
  rcases abandon_cases keeps_counted h hcoherent hget hstate key mode with
    hkept | ⟨_, lease, others, p, _, _, hcounted, hpool⟩
  · exact .inl hkept
  · right
    rw [hpool]
    exact hcounted.discard_available

theorem run_counted (token : τ) (config : PoolConfig) (commands : List Command) :
    let a := ((start (.empty token config)).run commands).2
    a.pool.Counted a.allLeases :=
  keeps_counted.run (fun _ _ _ _ h => h) ⟨rfl, Nat.zero_le _⟩

end

section

variable {ops : KeyOperations} {a : Application (Logged (Software ops))} {name : String}
  {e : Engine} {gone : SessionId → Prop}

/-- Over the token in memory it holds a session, or gets one. -/
theorem restart_acquires (hcounted : a.pool.Counted a.allLeases)
    (hhoused : a.pool.Housed gone a.allLeases) (hlimited : a.pool.token.token.Limited)
    (hcoherent : a.Coherent) (hget : a.engines.get? name = some e)
    (hstate : e.state = .initialized) (hopen : ∀ lease, e.lease = some lease → ¬ gone lease.session)
    (key : Key) (mode : OperationMode) :
    let abandoned := e.abandon (e.accept key mode a.pool).2
    abandoned.1.lease ≠ none ∨ abandoned.2.acquire.1.isOk = true := by
  intro abandoned
  have hkeeps := (keeps_counted (τ := Logged (Software ops))).and
    ((keeps_housed gone).and (.of_pool keeps_limited))
  rcases abandon_cases hkeeps ⟨hcounted, hhoused, hlimited⟩ hcoherent hget hstate key mode with
    hkept | ⟨held, lease, others, p, hheld, hsame, ⟨hcounted, hhoused, hlimited⟩, hpool⟩
  · exact .inl hkept
  · right
    rw [hpool]
    -- the session was open until it was closed, so the token has room for another
    have hslot : p.token.token.sessions.slot? lease.session ≠ none := by
      apply hhoused.isOpen
      · exact List.mem_append_right _ List.mem_cons_self
      · rw [hsame]
        exact hopen held hheld
    exact hcounted.discard_available.acquire_isOk (hlimited.answer_open_of_close hslot)

theorem after_counted (token : Logged (Software ops)) (config : PoolConfig)
    (actions : List Action) :
    let a := (start (.empty token config)).after actions
    a.pool.Counted a.allLeases :=
  keeps_counted.after (fun _ _ _ _ h => h) (fun _ _ _ _ h => h) ⟨rfl, Nat.zero_le _⟩

end

/-- **An engine does not starve itself.** Let an engine that is initialized be asked to start again,
    with any key and for either mode.
    - Over any token and after any commands, when it has given its operation up it still holds a
      session, or one is idle in the pool, or there is room for another. So it does not wait, and is
      not told that all sessions are in use.
    - Over the token in memory, whatever its limit, it is not told that there is no session, for any
      reason, unless somebody has closed its own past the pool. -/
theorem not_starved :
    (∀ (τ : Type) [Token τ] (token : τ) (config : PoolConfig) (commands : List Command)
        (name : String) (e : Engine) (key : Key) (mode : OperationMode),
      let a := ((start (.empty token config)).run commands).2
      let abandoned := e.abandon (e.accept key mode a.pool).2
      a.engines.get? name = some e → e.state = .initialized →
        (abandoned.1.lease ≠ none ∨ abandoned.2.Available)
          ∧ ∀ n, (e.handle (.init key mode) a.pool).1 ≠ .error (.noSession (.allInUse n)))
      ∧ ∀ (ops : KeyOperations) (limit : Option Nat) (sessionObjects : Bool) (config : PoolConfig)
          (actions : List Action) (name : String) (e : Engine) (key : Key) (mode : OperationMode),
        let token : Software ops := .empty limit sessionObjects
        let a := (start (.empty (Logged.start token) config)).after actions
        a.engines.get? name = some e → e.state = .initialized →
          (∀ lease, e.lease = some lease → ¬ ClosesPast actions lease.session) →
          ∀ shortage, (e.handle (.init key mode) a.pool).1 ≠ .error (.noSession shortage) := by
  refine ⟨?_, ?_⟩
  · intro τ _ token config commands name e key mode a abandoned hget hstate
    have hcoherent : a.Coherent := (start_coherent _).run commands
    have havailable : abandoned.1.lease ≠ none ∨ abandoned.2.Available :=
      restart_available (run_counted token config commands) hcoherent hget hstate key mode
    refine ⟨havailable, ?_⟩
    intro n hwaited
    obtain ⟨hnone, hacq⟩ := Engine.startWith_noSession (Engine.map_error hwaited)
    rcases havailable with hkept | havailable
    · exact hkept hnone
    · exact havailable.acquire_ne n hacq
  · intro ops limit sessionObjects config actions name e key mode token a hget hstate hopen
      shortage hwanting
    have hcoherent : a.Coherent := (start_coherent _).after actions
    have hhoused : a.pool.Housed (ClosesPast actions) a.allLeases :=
      after_housed (start_housed _ limit sessionObjects config) fun _ h => h
    have hlimited : a.pool.token.token.Limited :=
      after_limited (start_limited limit sessionObjects) actions
    obtain ⟨hnone, hacq⟩ := Engine.startWith_noSession (Engine.map_error hwanting)
    rcases restart_acquires (after_counted _ config actions) hhoused hlimited hcoherent hget hstate
      hopen key mode with hkept | hacquired
    · exact hkept hnone
    · rw [hacq] at hacquired
      cases hacquired

/-- An engine has begun to sign in the only session that there may be. -/
def alone : List Command :=
  [.newEngine "signer" "SHA1withECDSA" .ecdsaSha1,
    .engine "signer" (.init ⟨⟨1⟩, .privateKey, .ec 256⟩ .sign)]

/-- It is started to verify instead: its session is closed, and another is opened for it. -/
theorem not_starved_of_alone :
    let pair : Ecdsa.SecretKey := ⟨1, Nat.one_pos, Secp256k1.one_lt_order⟩
    let empty : Software .standard := .empty (some 1) false
    let config : PoolConfig := { maxSessions := 1 }
    let a := ((start (.empty (empty.addEc pair).2 config)).run alone).2
    let actions := .importEc pair :: alone.map .command
    let a' := (start (.empty (Logged.start empty) config)).after actions
    let other : Key := ⟨⟨2⟩, .publicKey, .ec 256⟩
    (∃ e, a.engines.get? "signer" = some e ∧ e.state = .initialized
        ∧ ((e.abandon (e.accept other .verify a.pool).2).1.lease ≠ none
          ∨ (e.abandon (e.accept other .verify a.pool).2).2.Available)
        ∧ ∀ n, (e.handle (.init other .verify) a.pool).1 ≠ .error (.noSession (.allInUse n)))
      ∧ (∃ e, a'.engines.get? "signer" = some e ∧ e.state = .initialized
        ∧ (∀ lease, e.lease = some lease → ¬ ClosesPast actions lease.session)
        ∧ ∀ shortage, (e.handle (.init other .verify) a'.pool).1 ≠ .error (.noSession shortage))
      ∧ ((a'.step (.engine "signer" (.init other .verify))).2.engines.get? "signer").map (·.lease)
        = some (some ⟨⟨2⟩, true⟩) := by
  intro pair empty config a actions a' other
  have hget : (a.engines.get? "signer").map (·.state) = some .initialized := by decide +kernel
  have hget' : (a'.engines.get? "signer").map (·.state) = some .initialized := by decide +kernel
  obtain ⟨e, hget, hstate⟩ := Option.map_eq_some_iff.mp hget
  obtain ⟨e', hget', hstate'⟩ := Option.map_eq_some_iff.mp hget'
  have hopen : ∀ lease, e'.lease = some lease → ¬ ClosesPast actions lease.session := by
    simp [actions, ClosesPast, alone]
  obtain ⟨havailable, hwaits⟩ := not_starved.1 _ _ config alone "signer" e other .verify hget hstate
  have hrestarts := not_starved.2 .standard (some 1) false config actions "signer" e' other .verify
    hget' hstate' hopen
  exact ⟨⟨e, hget, hstate, havailable, hwaits⟩, ⟨e', hget', hstate', hopen, hrestarts⟩,
    by decide +kernel⟩

/-- Where its session is closed past the pool, another may have taken the place of it on the token. -/
example :
    let pair : Ecdsa.SecretKey := ⟨1, Nat.one_pos, Secp256k1.one_lt_order⟩
    let empty : Software .standard := .empty (some 1) false
    let a := (start (.empty (Logged.start empty) { maxSessions := 2 })).after
      (.importEc pair :: alone.map .command
        ++ [.command (.token (.closeSession ⟨1⟩)), .command (.acquire "other")])
    (a.engines.get? "signer").map (fun e =>
      (e.handle (.init ⟨⟨2⟩, .publicKey, .ec 256⟩ .verify) a.pool).1)
      = some (.error (.noSession .refusedByToken)) := by
  decide +kernel

end Application

end Cryptoki
