import Cryptoki.Application
import Cryptoki.Proofs.Engine.Tenancy

/-!
# `Cryptoki.Proofs.Application.Agreement` — engines, leases and token agree between calls

Engines and leases that share a pool over the token in memory are its tenants, all of them together.
Every command keeps the pool tidy for all: one tenant is set apart from the others, the command does
to it what it does, and it is put back. So what a lease believes of its session is true between
calls, whatever calls came before, and an engine is never told that it came at the wrong time. Only a
lease that is driven directly can be told so, which then changes nothing for anybody else.

## Contents
- `Application.Action`, `Application.after` — commands, and keys stored meanwhile.
- `Application.tenants`, `Application.Agrees` — all tenants, and that the pool is tidy for them.
- `Application.Agrees.step`, `Application.Agrees.drive` — every command keeps that.
- `Application.agreement` — what holds between calls.
-/

namespace Cryptoki.Application

variable {ops : KeyOperations}

/-! ## Runs -/

/-- The command uses sessions through the pool only. -/
def Command.ThroughPool : Command → Prop
  | .token call => ∃ mechanism, call = .mechanismInfo mechanism
  | _ => True

/-- The command is a call of a lease that is driven directly. -/
def Command.Drives : Command → Prop
  | .lease .. => True
  | _ => False

/-- A command, or a key pair that is stored in the token. -/
inductive Action
  | command (c : Command)
  | importRsa (k : Rsa.PrivateKey)
  | importEc (k : Ecdsa.SecretKey)

/-- The application with another token, that has the same log. -/
def withToken (a : Application (Logged (Software ops))) (token : Software ops) :
    Application (Logged (Software ops)) :=
  { a with pool := { a.pool with token := ⟨token, a.pool.token.log⟩ } }

/-- The application after an action. -/
def act (a : Application (Logged (Software ops))) : Action → Application (Logged (Software ops))
  | .command c => (a.step c).2
  | .importRsa k => a.withToken (a.pool.token.token.addRsa k).2
  | .importEc k => a.withToken (a.pool.token.token.addEc k).2

/-- The application after some actions. -/
def after (a : Application (Logged (Software ops))) (actions : List Action) :
    Application (Logged (Software ops)) := actions.foldl act a

/-! ## All tenants -/

/-- Engines and leases, as tenants. -/
def tenantsOf (engines : Table String Engine) (leases : Table String Lease) : List Tenant :=
  engines.values.flatMap Engine.tenants ++ leases.values.map (⟨·, none⟩)

variable {engines : Table String Engine} {leases : Table String Lease} {name : String}
  {e : Engine} {lease : Lease}

/-- One engine, and all other tenants. -/
theorem tenantsOf_perm_engine (h : engines.get? name = some e) :
    (tenantsOf engines leases).Perm (e.tenants ++ tenantsOf (engines.erase name) leases) := by
  rw [tenantsOf, tenantsOf, ← List.append_assoc]
  exact ((Table.values_perm h).flatMap_right Engine.tenants).append_right _

theorem tenantsOf_engine_none (h : engines.get? name = none) :
    tenantsOf engines leases = tenantsOf (engines.erase name) leases := by
  rw [tenantsOf, tenantsOf, Table.values_erase_of_none h]

theorem tenantsOf_insert_engine (engines : Table String Engine) (leases : Table String Lease)
    (name : String) (e : Engine) :
    tenantsOf (engines.insert name e) leases
      = e.tenants ++ tenantsOf (engines.erase name) leases := by
  rw [tenantsOf, tenantsOf, Table.values_insert, List.flatMap_cons, List.append_assoc]

/-- One lease, and all other tenants. -/
theorem tenantsOf_perm_lease (h : leases.get? name = some lease) :
    (tenantsOf engines leases).Perm
      (⟨lease, none⟩ :: tenantsOf engines (leases.erase name)) := by
  rw [tenantsOf, tenantsOf]
  exact (((Table.values_perm h).map _).append_left _).trans List.perm_middle

theorem tenantsOf_lease_none (h : leases.get? name = none) :
    tenantsOf engines leases = tenantsOf engines (leases.erase name) := by
  rw [tenantsOf, tenantsOf, Table.values_erase_of_none h]

theorem tenantsOf_insert_lease (engines : Table String Engine) (leases : Table String Lease)
    (name : String) (lease : Lease) :
    (⟨lease, none⟩ :: tenantsOf engines (leases.erase name)).Perm
      (tenantsOf engines (leases.insert name lease)) := by
  rw [tenantsOf, tenantsOf, Table.values_insert]
  exact List.perm_middle.symm

/-! ## Agreement -/

/-- The engines are coherent, and the pool is tidy for engines and leases together. -/
structure Agrees (t : Logged (Software ops)) (a : Application (Logged (Software ops))) : Prop where
  coherent : ∀ e ∈ a.engines.values, e.Coherent e.scheme
  tidy : Tidy t a.pool (tenantsOf a.engines a.leases)

variable {t : Logged (Software ops)} {a : Application (Logged (Software ops))}

theorem start_agrees (limit : Option Nat) (sessionObjects : Bool) (config : PoolConfig) :
    let token : Software ops := .empty limit sessionObjects
    Agrees (Logged.start token) (start (.empty (Logged.start token) config)) := by
  intro token
  refine ⟨?_, List.nodup_nil, ?_, ?_, rfl, fun s hs => absurd rfl hs, .refl _⟩
  · intro e he
    cases he
  · intro s hs
    cases hs
  · intro tenant ht
    cases ht

/-- Storing a key changes nothing for the tenants. -/
theorem Agrees.withToken {token : Software ops} (h : Agrees t a)
    (hsessions : token.sessions = a.pool.token.token.sessions) : Agrees t (a.withToken token) :=
  ⟨h.coherent, h.tidy.withToken hsessions h.tidy.quiet⟩

/-- An engine that is found is coherent. -/
theorem Agrees.engine (h : Agrees t a) (hget : a.engines.get? name = some e) :
    e.Coherent e.scheme :=
  h.coherent e (Table.mem_values.mpr ⟨name, hget⟩)

/-- Making an engine ends the one that had the name. -/
theorem Agrees.newEngine (h : Agrees t a) (name algorithm : String) (mechanism : Mechanism) :
    Agrees t (a.step (.newEngine name algorithm mechanism)).2 := by
  simp only [step, Engine.new]
  cases Scheme.resolve algorithm mechanism with
  | error what => exact h
  | ok scheme =>
      dsimp only
      constructor
      · intro e he
        rcases Table.mem_values_insert he with rfl | he
        · exact Engine.ofScheme_coherent scheme
        · exact h.coherent e he
      · rw [tenantsOf_insert_engine]
        cases hget : a.engines.get? name with
        | none =>
            have htidy := h.tidy
            rw [tenantsOf_engine_none hget] at htidy
            exact htidy
        | some old => exact Engine.close_tidy (h.tidy.perm (tenantsOf_perm_engine hget))

theorem Agrees.handle (h : Agrees t a) (name : String) (request : Engine.Request) :
    Agrees t (a.step (.engine name request)).2 := by
  simp only [step]
  cases hget : a.engines.get? name with
  | none => exact h
  | some e =>
      have hcoherent := h.engine hget
      have htidy :=
        Engine.handle_tidy hcoherent request (h.tidy.perm (tenantsOf_perm_engine hget))
      have hafter := Engine.handle_coherent hcoherent request a.pool
      constructor
      · intro e' he
        rcases Table.mem_values_insert he with rfl | he
        · rw [hafter.scheme_eq]
          exact hafter
        · exact h.coherent e' he
      · rw [tenantsOf_insert_engine]
        exact htidy

theorem Agrees.dropEngine (h : Agrees t a) (name : String) :
    Agrees t (a.step (.dropEngine name)).2 := by
  simp only [step]
  cases hget : a.engines.get? name with
  | none => exact h
  | some e =>
      exact ⟨fun e he => h.coherent e (Table.mem_values_erase he),
        Engine.close_tidy (h.tidy.perm (tenantsOf_perm_engine hget))⟩

/-- A lease that had the name is closed after the new one was acquired. -/
theorem Agrees.acquire (h : Agrees t a) (name : String) :
    Agrees t (a.step (.acquire name)).2 := by
  simp only [step]
  cases hacq : a.pool.acquire with
  | mk result pool =>
      cases result with
      | error err => exact ⟨h.coherent, h.tidy.acquire_error hacq⟩
      | ok lease =>
          obtain ⟨htidy, _⟩ := h.tidy.acquire_ok hacq
          refine ⟨h.coherent, Tidy.perm ?_ (tenantsOf_insert_lease a.engines a.leases name lease)⟩
          dsimp only
          -- the old lease, if there is one, is another tenant until it is closed
          cases hget : a.leases.get? name with
          | none =>
              rw [tenantsOf_lease_none hget] at htidy
              exact htidy
          | some old =>
              exact (htidy.perm (((tenantsOf_perm_lease hget).cons _).trans (.swap _ _ _))).close

theorem Agrees.closeLease (h : Agrees t a) (name : String) :
    Agrees t (a.step (.closeLease name)).2 := by
  simp only [step]
  cases hget : a.leases.get? name with
  | none => exact h
  | some lease => exact ⟨h.coherent, (h.tidy.perm (tenantsOf_perm_lease hget)).close⟩

theorem Agrees.discardLease (h : Agrees t a) (name : String) :
    Agrees t (a.step (.discardLease name)).2 := by
  simp only [step]
  cases hget : a.leases.get? name with
  | none => exact h
  | some lease => exact ⟨h.coherent, (h.tidy.perm (tenantsOf_perm_lease hget)).discard⟩

/-- **Commands keep engines, leases and token in agreement**, and the token answers them in time. -/
theorem Agrees.step (h : Agrees t a) {c : Command} (hpool : c.ThroughPool) (hdrives : ¬ c.Drives) :
    Agrees t (a.step c).2 := by
  cases c with
  | newEngine name algorithm mechanism => exact h.newEngine name algorithm mechanism
  | engine name request => exact h.handle name request
  | dropEngine name => exact h.dropEngine name
  | acquire name => exact h.acquire name
  | lease name primitive => exact absurd trivial hdrives
  | closeLease name => exact h.closeLease name
  | discardLease name => exact h.discardLease name
  | token call =>
      obtain ⟨mechanism, rfl⟩ := hpool
      exact ⟨h.coherent, h.tidy.mechanismInfo mechanism⟩

/-- So does a lease that is driven directly, though it may be answered that it is the wrong time. -/
theorem Agrees.drive (h : Agrees t a) (name : String) (primitive : Primitive) :
    ∃ t', Agrees t' (a.step (.lease name primitive)).2 := by
  simp only [Application.step]
  cases hget : a.leases.get? name with
  | none => exact ⟨t, h⟩
  | some lease =>
      have htidy := (h.tidy.perm (tenantsOf_perm_lease hget)).drive
        (rfl : lease.operate primitive a.pool = (_, _, (lease.operate primitive a.pool).2.2))
      exact ⟨_, h.coherent, htidy.perm (tenantsOf_insert_lease a.engines a.leases name _)⟩

theorem Agrees.act (h : Agrees t a) {action : Action}
    (hpool : ∀ c, action = .command c → c.ThroughPool) : ∃ t', Agrees t' (a.act action) := by
  cases action with
  | importRsa k => exact ⟨t, h.withToken rfl⟩
  | importEc k => exact ⟨t, h.withToken rfl⟩
  | command c =>
      by_cases hdrives : c.Drives
      · cases c with
        | lease name primitive => exact h.drive name primitive
        | _ => exact hdrives.elim
      · exact ⟨t, h.step (hpool c rfl) hdrives⟩

/-- Any actions keep the agreement. -/
theorem Agrees.after (h : Agrees t a) {actions : List Action}
    (hpool : ∀ c, .command c ∈ actions → c.ThroughPool) : ∃ t', Agrees t' (a.after actions) := by
  induction actions generalizing t a with
  | nil => exact ⟨t, h⟩
  | cons action actions ih =>
      obtain ⟨_, h'⟩ := h.act fun c hc => hpool c (hc ▸ List.mem_cons_self)
      exact ih h' fun c hc => hpool c (List.mem_cons_of_mem action hc)

/-! ## Between calls -/

/-- **Engines, leases and token agree between calls.** Whatever was asked of engines and leases that
    share a pool, in any order and with any failures: the session of a lease is open, with an
    operation exactly if the lease says so, be the lease an engine's or driven directly; the
    operation of an engine is in the engine's mode, on its mechanism and with its key; idle sessions
    are open and have no operation; and as many sessions are counted as are open. So no call but
    that of a lease driven directly is answered that it comes at the wrong time. -/
theorem agreement (limit : Option Nat) (sessionObjects : Bool) (config : PoolConfig)
    (actions : List Action) (hpool : ∀ c, .command c ∈ actions → c.ThroughPool) :
    let token : Software ops := .empty limit sessionObjects
    let a := (start (.empty (Logged.start token) config)).after actions
    (∀ name lease, a.leases.get? name = some lease →
        ∃ op, a.pool.slot? lease.session = some op ∧ op.isSome = lease.active)
      ∧ (∀ name e lease, a.engines.get? name = some e → e.lease = some lease →
          ∃ op, a.pool.slot? lease.session = some op ∧ op.isSome = lease.active)
      ∧ (∀ name e, a.engines.get? name = some e → e.state = .initialized →
          ∃ session mode key o, e.lease = some ⟨session, true⟩ ∧ e.mode = some mode
            ∧ e.key = some key ∧ a.pool.slot? session = some (some o) ∧ o.mode = mode
            ∧ o.mechanism = e.scheme.mechanism ∧ o.key = key.handle)
      ∧ (∀ session ∈ a.pool.idle, a.pool.slot? session = some none)
      ∧ a.pool.occupancy.opened = a.pool.token.token.openSessions
      ∧ ∀ c : Command, c.ThroughPool → ¬ c.Drives →
          Quiet a.pool.token (a.step c).2.pool.token := by
  intro token a
  obtain ⟨t, h⟩ : ∃ t, Agrees t a := (start_agrees limit sessionObjects config).after hpool
  -- what is known of an engine's session, from the engine as a tenant
  have hengine : ∀ name e lease, a.engines.get? name = some e → e.lease = some lease →
      ∃ op, a.pool.slot? lease.session = some op ∧ Tenant.Sits ⟨lease, e.purpose⟩ op := by
    intro name e lease hget hlease
    have htidy := h.tidy.perm (tenantsOf_perm_engine hget)
    rw [Engine.tenants_of_some hlease] at htidy
    exact htidy.sits _ List.mem_cons_self
  refine ⟨?_, ?_, ?_, h.tidy.idle, h.tidy.counted, ?_⟩
  · intro name lease hget
    obtain ⟨op, hslot, hsits⟩ :=
      (h.tidy.perm (tenantsOf_perm_lease hget)).sits _ List.mem_cons_self
    exact ⟨op, hslot, hsits.active⟩
  · intro name e lease hget hlease
    obtain ⟨op, hslot, hsits⟩ := hengine name e lease hget hlease
    exact ⟨op, hslot, hsits.active⟩
  · intro name e hget hstate
    obtain ⟨session, key, mode, hlease, hkey, hmode⟩ := (h.engine hget).operation hstate
    obtain ⟨op, hslot, hsits⟩ := hengine name e _ hget hlease
    obtain ⟨o, rfl, hfor⟩ :=
      hsits.purpose _ (Engine.purpose_of_operation hstate hmode hkey)
    exact ⟨session, mode, key, o, hlease, hmode, hkey, hslot, congrArg Purpose.mode hfor,
      congrArg Purpose.mechanism hfor, congrArg Purpose.key hfor⟩
  · intro c hthrough hdrives
    -- what went before may have come at the wrong time, so the quiet is counted from here
    have hrestart : Agrees a.pool.token a := ⟨h.coherent, h.tidy.restart⟩
    exact (hrestart.step hthrough hdrives).tidy.quiet

/-- An engine starts to sign, and a lease is driven in a way that its session does not allow. -/
def misuse : List Action :=
  [.importEc ⟨1, by decide, by decide +kernel⟩,
    .command (.newEngine "signer" "SHA1withECDSA" .ecdsaSha1),
    .command (.engine "signer" (.init ⟨⟨1⟩, .privateKey, .ec 256⟩ .sign)),
    .command (.acquire "lease"),
    .command (.lease "lease" (.verifyFinal []))]

/-- After misuse of a lease the engine still has its operation, and ends it in time. -/
theorem agreement_of_misuse :
    let token : Software .standard := .empty none false
    let a := (start (.empty (Logged.start token) {})).after misuse
    (∀ c, .command c ∈ misuse → c.ThroughPool)
      ∧ (∃ e, a.engines.get? "signer" = some e ∧ e.state = .initialized
        ∧ ∃ session mode key o, e.lease = some ⟨session, true⟩ ∧ e.mode = some mode
            ∧ e.key = some key ∧ a.pool.slot? session = some (some o) ∧ o.mode = mode
            ∧ o.mechanism = e.scheme.mechanism ∧ o.key = key.handle)
      ∧ Quiet a.pool.token (a.step (.engine "signer" .sign)).2.pool.token := by
  have hpool : ∀ c, .command c ∈ misuse → c.ThroughPool := by
    simp [misuse, Command.ThroughPool]
  have hagree := @agreement .standard none false {} misuse hpool
  have hinit : (((start (.empty (Logged.start (.empty none false : Software .standard)) {})).after
      misuse).engines.get? "signer").map (·.state) = some .initialized := by decide +kernel
  obtain ⟨e, hget, hstate⟩ := Option.map_eq_some_iff.mp hinit
  exact ⟨hpool, ⟨e, hget, hstate, hagree.2.2.1 "signer" e hget hstate⟩,
    hagree.2.2.2.2.2 _ trivial id⟩

end Cryptoki.Application
