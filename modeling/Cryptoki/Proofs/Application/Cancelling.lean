import Cryptoki.Proofs.Application.Verdicts
import Cryptoki.Proofs.Engine.Cancelling
import Cryptoki.Proofs.Rsa

/-!
# `Cryptoki.Proofs.Application.Cancelling` — cancelling in company

An engine that is cancelled among others gives up its operation and its session, and nobody else
notices: there is one session fewer in use, idle or closed, and all others are where they were.
Cancelled at rest, or a second time, it does nothing at all. Where sessions own objects and the
settings ask to end operations that are given up, no session is closed for it.

## Contents
- `Application.Cancelled` — what is different when an engine has been cancelled.
- `Application.Endable` — an operation that can be ended on the token, and is to be.
- `Application.Reuses` — what is different when another operation goes on in the session.
- `Diary.cancelled` — what comes of cancelling, wherever allowed actions lead.
-/

namespace Cryptoki

variable {ops : KeyOperations}

namespace Application

/-- What is different when the engine of a name has been cancelled. -/
structure Cancelled (name : String) (e : Engine) (a b : Application (Logged (Software ops))) :
    Prop where
  /-- The engine is at rest without a session, with its key and mode. -/
  engine : ∃ pending,
    b.engines.get? name = some { e with state := .uninitialized, lease := none, pending }
  /-- There is one session fewer in use, if an operation was under way. -/
  inUse : e.state = .initialized → b.pool.occupancy.inUse + 1 = a.pool.occupancy.inUse
  /-- And nothing is different, if there was none. -/
  rest : e.state = .uninitialized → b.engines.get? name = some e ∧ b.pool = a.pool
  /-- The session is idle, without an operation, or closed. -/
  session : ∀ lease, e.lease = some lease →
    a.pool.Regains lease.session b.pool ∨ a.pool.Loses lease.session b.pool
  /-- The sessions of others are not called on, and not lent out; what they have in their slots
      stays. -/
  others : ∀ session, a.HeldBeside name session →
    Logged.Since (fun event => ¬ event.On session) a.pool.token b.pool.token
      ∧ session ∉ b.pool.idle ∧ b.pool.slot? session = a.pool.slot? session
  engines : ∀ other, other ≠ name → b.engines.get? other = a.engines.get? other
  leases : b.leases = a.leases
  /-- Cancelling again does nothing. -/
  again : b.step (.engine name .cancel) = (.engine (.ok .done), b)

/-- The operation of an engine can be ended on the token, and is to be: the input is not gathered
    raw, and if the engine signs, its key signs what it takes. -/
structure Endable (e : Engine) (a : Application (Logged (Software ops))) : Prop where
  keeps : a.pool.KeepsSessions
  notRaw : ∀ rule, e.scheme.processing ≠ .raw rule
  signs : e.mode = some .sign → ∀ secret pair, a.Holds secret pair →
    e.key = some pair.privateKey → ops.Signs secret

/-- An engine goes on in the session that it had before: it has another key and mode, and the token
    the operation for them; no session was opened, closed or lent out meanwhile. -/
structure Reuses (name : String) (e : Engine) (key : Key) (mode : OperationMode) (lease : Lease)
    (a b : Application (Logged (Software ops))) : Prop where
  engine : ∃ pending,
    b.engines.get? name = some { e with key := some key, mode := some mode, pending }
  slot : ∃ o, b.pool.slot? lease.session = some (some o)
    ∧ o.purpose = ⟨mode, e.scheme.mechanism, key.handle⟩
  idle : b.pool.idle = a.pool.idle
  opened : b.pool.opened = a.pool.opened
  unclosed : Logged.Since (fun event => ¬ event.Closes) a.pool.token b.pool.token

variable {t : Logged (Software ops)} {a : Application (Logged (Software ops))} {name : String}
  {e : Engine}

theorem step_cancel (hget : a.engines.get? name = some e) :
    a.step (.engine name .cancel)
      = (.engine (.ok .done),
        { a with
          pool := (e.cancel a.pool).2
          engines := a.engines.insert name (e.cancel a.pool).1 }) :=
  step_engine hget .cancel

/-- A second time there is nothing to do. -/
theorem Agrees.step_cancel_again (h : Agrees t a) (hget : a.engines.get? name = some e)
    (hstate : e.state = .uninitialized) :
    a.step (.engine name .cancel)
      = (.engine (.ok .done), { a with engines := a.engines.insert name e }) := by
  rw [step_cancel hget, (h.engine hget).cancel_of_rest hstate]

/-- The sessions in use are that of the engine, and those of others. -/
theorem Agrees.inUse (h : Agrees t a) (hget : a.engines.get? name = some e) :
    ∃ n, a.pool.InUse (n + e.held) := by
  obtain ⟨n, hinUse⟩ := (h.tidy.perm (tenantsOf_perm_engine hget)).inUse
  refine ⟨n + (tenantsOf (a.engines.erase name) a.leases).length, ?_⟩
  have hheld : e.tenants.length = e.held := by
    rw [Engine.tenants, List.length_map, Engine.length_lease]
  rw [List.length_append, hheld, Nat.add_comm e.held, ← Nat.add_assoc] at hinUse
  exact hinUse

/-- At rest, an engine is cancelled without consequence. -/
theorem Agrees.cancelled_of_rest (h : Agrees t a) (hget : a.engines.get? name = some e)
    (hstate : e.state = .uninitialized) :
    Cancelled name e a (a.step (.engine name .cancel)).2 := by
  have hagrees : Agrees t (a.step (.engine name .cancel)).2 := h.handle name .cancel
  have hlease := (h.engine hget).idle hstate
  rw [h.step_cancel_again hget hstate] at hagrees ⊢
  have hfound : (a.engines.insert name e).get? name = some e := Table.get?_insert_self ..
  exact {
    engine := ⟨e.pending, by rw [hfound, ← hstate, ← hlease]⟩
    inUse := fun hinit => absurd (hstate.symm.trans hinit) (by decide)
    rest := fun _ => ⟨hfound, rfl⟩
    session := fun lease hheld => absurd (hlease.symm.trans hheld) (by simp)
    others := fun session hheld => ⟨.refl _, (h.heldBeside hget hheld).1, rfl⟩
    engines := fun other hne => Table.get?_insert_of_ne hne ..
    leases := rfl
    again := by rw [hagrees.step_cancel_again hfound hstate, Table.insert_insert] }

/-- While it is initialized, it gives up its session, and nobody else's. -/
theorem Agrees.cancelled_of_operation (h : Agrees t a) (hget : a.engines.get? name = some e)
    (hstate : e.state = .initialized) :
    Cancelled name e a (a.step (.engine name .cancel)).2 := by
  have hagrees : Agrees t (a.step (.engine name .cancel)).2 := h.handle name .cancel
  obtain ⟨session, key, hlease, _⟩ := (h.engine hget).busy hstate
  obtain ⟨op, hslot, _⟩ := h.sits hget hlease
  obtain ⟨n, hinUse⟩ := h.inUse hget
  have hafter : (e.cancel a.pool).2.InUse (n + (e.cancel a.pool).1.held) :=
    Engine.handle_inUse .cancel hinUse
  have hheld : e.held = 1 := by simp [Engine.held, hlease]
  rw [hheld] at hinUse
  obtain ⟨⟨pending, hengine⟩, hworks, hsettled⟩ :=
    Engine.cancel_settles hstate hlease hslot (by rw [hinUse]; omega)
  rw [hengine, Engine.held_of_none rfl] at hafter
  have hown : ∀ lease, e.lease = some lease → lease.session = session := by
    intro lease hheld
    rw [← Option.some.inj (hlease.symm.trans hheld)]
  rw [step_cancel hget, hengine] at hagrees ⊢
  have hfound : (a.engines.insert name
      { e with state := .uninitialized, lease := none, pending }).get? name = some _ :=
    Table.get?_insert_self ..
  exact {
    engine := ⟨pending, hfound⟩
    inUse := fun _ => by rw [hafter.occupancy_eq, hinUse.occupancy_eq]
    rest := fun hrest => absurd (hstate.symm.trans hrest) (by decide)
    session := fun lease hheld => by
      rw [hown lease hheld]
      exact hsettled
    others := fun other hheld => by
      obtain ⟨hidle, hne⟩ := h.heldBeside hget hheld
      have hother : other ≠ session := (hne _ hlease).symm
      refine ⟨hworks.calls.mono fun event hon hon' => hother (hon'.session_eq hon), ?_,
        hworks.slot?_eq other hother⟩
      rcases hsettled with hregained | hlost
      · rw [hregained.idle]
        exact List.not_mem_cons_of_ne_of_not_mem hother hidle
      · rw [hlost.idle]
        exact hidle
    engines := fun other hne => Table.get?_insert_of_ne hne ..
    leases := rfl
    again := by rw [hagrees.step_cancel_again hfound rfl, Table.insert_insert] }

/-- **Cancelling changes nothing for anybody else**, and for the engine what it should. -/
theorem Agrees.step_cancelled (h : Agrees t a) (hget : a.engines.get? name = some e) :
    Cancelled name e a (a.step (.engine name .cancel)).2 := by
  cases hstate : e.state with
  | uninitialized => exact h.cancelled_of_rest hget hstate
  | initialized => exact h.cancelled_of_operation hget hstate

end Application

/-! ## Wherever allowed actions lead -/

namespace Diary

open Application (Cancelled Endable Reuses firstPair)

variable {d : Diary ops} {name : String} {e : Engine}

/-- An engine that is initialized is in the middle of its message, with the key of a returned pair
    that its mode works with. -/
theorem Sound.serving (h : d.Sound) (hget : d.app.engines.get? name = some e)
    (hstate : e.state = .initialized) :
    ∃ secret pair mode, d.app.Holds secret pair ∧ e.key = some (pair.keyFor mode)
      ∧ e.mode = some mode ∧ e.scheme.Suits (pair.keyFor mode)
      ∧ e.Serves e.scheme (pair.keyFor mode) mode (d.absorbed name) d.app.pool := by
  have hready := h.ready name e hget
  obtain ⟨key, mode, hserves⟩ := h.serves name e hget hstate
  have hkey := hserves.key_eq
  obtain ⟨secret, pair, hholds, hhas⟩ := h.knows (h.bound name e key hget hkey)
  obtain ⟨mode', hmode, haccept⟩ := hready.coherent.accepted key hkey
  obtain rfl : mode' = mode := by
    obtain ⟨session, parts, hengine, _⟩ := hserves
    rw [hengine] at hmode
    exact (Option.some.inj hmode).symm
  obtain rfl := Engine.keyFor_of_accept hholds hhas haccept
  exact ⟨secret, pair, mode', hholds, hkey, hmode, hready.suits hkey, hserves⟩

/-- **Cancelling is a matter of one engine and its session.** Wherever sessions were used through
    the pool only, and engines with keys of returned pairs only, an engine that is cancelled is at
    rest with its key and mode and without a session, which is idle or closed, and there is one
    fewer in use; at rest nothing happens, so that cancelling again does nothing; and the sessions
    of others are left alone. If sessions own objects, the settings ask to end operations that are
    given up, the input is not gathered raw, and signatures can be made, then no session is closed:
    the session is idle, and if the operation is given up for the start of another that succeeds,
    this one goes on in it. -/
theorem cancelled (h : d.Reached) (hget : d.app.engines.get? name = some e) :
    let out := d.app.step (.engine name .cancel)
    out.1 = .engine (.ok .done) ∧ Cancelled name e d.app out.2
      ∧ (Endable e d.app → ∀ lease, e.lease = some lease →
          d.app.pool.Regains lease.session out.2.pool
            ∧ Logged.Since (fun event => ¬ event.Closes) d.app.pool.token out.2.pool.token
            ∧ ∀ key mode,
                let next := d.app.step (.engine name (.init key mode))
                next.1 = .engine (.ok .done) → Reuses name e key mode lease d.app next.2) := by
  intro out
  have hsound := h.sound
  obtain ⟨t, hagrees⟩ := hsound.agrees
  have hcoherent := hagrees.engine hget
  refine ⟨?_, hagrees.step_cancelled hget, ?_⟩
  · show (d.app.step (.engine name .cancel)).1 = _
    rw [Application.step_cancel hget]
  · intro hendable lease hlease
    obtain ⟨hstate, _⟩ := hcoherent.busy_of_lease hlease
    obtain ⟨secret, pair, mode, hholds, hkey, hmode, hsuits, hserves⟩ := hsound.serving hget hstate
    have hsigns : mode = .sign → ops.Signs secret := by
      rintro rfl
      exact hendable.signs hmode secret pair hholds hkey
    obtain ⟨session, hheld, hregains, hunclosed⟩ :=
      hserves.cancel_regains hendable.keeps hsuits hholds hendable.notRaw hsigns
    obtain rfl := Option.some.inj (hlease.symm.trans hheld)
    have hout : out.2.pool = (e.cancel d.app.pool).2 := by
      show (d.app.step (.engine name .cancel)).2.pool = _
      rw [Application.step_cancel hget]
    rw [hout]
    refine ⟨hregains, hunclosed, ?_⟩
    intro key' mode' next hnext
    have hagrees' : Application.Agrees t next.2 := hagrees.handle name (.init key' mode')
    have hstep : next = _ := Application.step_engine hget (.init key' mode')
    rw [hstep] at hnext hagrees' ⊢
    have hinit : (e.handle (.init key' mode') d.app.pool).1 = .ok .done :=
      Application.Reply.engine.inj hnext
    obtain ⟨⟨pending, hengine⟩, hidle, hopened, hunclosed'⟩ :=
      hserves.init_keeps hendable.keeps hsuits hholds hendable.notRaw hsigns hinit
    rw [hengine] at hagrees' ⊢
    have hfound := Table.get?_insert_self d.app.engines name
      { e with key := some key', mode := some mode', pending }
    -- what the engine says of its session is so
    obtain ⟨op, hslot, hsits⟩ := hagrees'.sits hfound hlease
    obtain ⟨o, rfl, hpurpose⟩ := hsits.purpose _ (Engine.purpose_of_operation hstate rfl rfl)
    exact ⟨⟨pending, hfound⟩, ⟨o, hslot, hpurpose⟩, hidle, hopened, hunclosed'⟩

/-- Over sessions that own objects, an engine that digests has begun to sign. -/
def halfway (k : Rsa.PrivateKey) : Diary .standard :=
  ((((start none true {}).act (.importRsa k)).act
    (.command (.newEngine "signer" "SHA256withRSA" .rsaPkcs))).act
    (.command (.engine "signer" (.init (firstPair (.rsa k)).privateKey .sign)))).act
    (.command (.engine "signer" (.update [1])))

theorem halfway_stores (k : Rsa.PrivateKey) :
    (halfway k).app.Stores (.rsa k) (firstPair (.rsa k)) :=
  ⟨none, true, {}, [],
    [.command (.newEngine "signer" "SHA256withRSA" .rsaPkcs),
      .command (.engine "signer" (.init (firstPair (.rsa k)).privateKey .sign)),
      .command (.engine "signer" (.update [1]))], rfl, rfl⟩

/-- Its operation can be ended on the token: when it is cancelled, the session is idle, and when it
    is started to verify instead, it goes on in the session. -/
theorem cancelled_of_halfway :
    let pair := firstPair (.rsa Rsa.mersenneKey)
    let d := halfway Rsa.mersenneKey
    d.Reached ∧ ∃ e lease, d.app.engines.get? "signer" = some e
      ∧ e.lease = some lease ∧ Endable e d.app
      ∧ Cancelled "signer" e d.app (d.app.step (.engine "signer" .cancel)).2
      ∧ d.app.pool.Regains lease.session
          (d.app.step (.engine "signer" .cancel)).2.pool
      ∧ Reuses "signer" e pair.publicKey .verify lease d.app
          (d.app.step (.engine "signer" (.init pair.publicKey .verify))).2 := by
  intro pair d
  have hreached : d.Reached := by
    refine .act (.act (.act (.act (.start none true {}) ?_) ?_) ?_) ?_
    · trivial
    · trivial
    · exact ⟨pair, List.mem_cons_self, .inl rfl⟩
    · trivial
  have hholds : d.app.Holds (.rsa Rsa.mersenneKey) pair := (halfway_stores _).holds
  have hseen : (d.app.engines.get? "signer").map (fun e =>
      (e.key, e.lease, e.scheme.processing,
        (e.handle (.init pair.publicKey .verify) d.app.pool).1))
      = some (some pair.privateKey, some ⟨⟨1⟩, true⟩, .digestHere .sha256, .ok .done) := by
    decide +kernel
  obtain ⟨e, hget, hparts⟩ := Option.map_eq_some_iff.mp hseen
  obtain ⟨hkey, hlease, hproc, hinit⟩ : e.key = some pair.privateKey
      ∧ e.lease = some ⟨⟨1⟩, true⟩ ∧ e.scheme.processing = .digestHere .sha256
      ∧ (e.handle (.init pair.publicKey .verify) d.app.pool).1 = .ok .done := by
    simpa using hparts
  have hendable : Endable e d.app := by
    refine ⟨⟨by decide +kernel, by decide +kernel⟩, by simp [hproc], ?_⟩
    intro _ secret pair hother hsame
    rw [Software.Holds.secret_eq hholds hother (Option.some.inj (hsame.symm.trans hkey))]
    exact Rsa.mersenneKey_roundTrips.signs
  obtain ⟨_, hcancelled, hkept⟩ := cancelled hreached hget
  obtain ⟨hregains, _, hreuses⟩ := hkept hendable _ hlease
  refine ⟨hreached, e, _, hget, hlease, hendable, hcancelled, hregains, hreuses _ _ ?_⟩
  rw [Application.step_engine hget, hinit]

end Diary

end Cryptoki
