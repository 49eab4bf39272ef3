import Cryptoki.Proofs.Engine.LostSession
import Cryptoki.Proofs.Pool.Housed

/-!
# `Cryptoki.Proofs.Application.Recycling` — sessions that are closed past the pool

A session of the pool may be closed past it, at any time. The pool is not told, and goes by one thing
when the session is given back: whether an operation is under way, as far as the lease knows. So a
session that the token says is not open is idle again as long as no operation is known to be under
way in it, and the next user gets it. If one is, or if the session is discarded, it is never lent
again.

## Contents
- `Application.NeverLends` — a session that is none of the pool's, and will not be.
- `Application.discardLease_neverLends`, `Application.closeLease_neverLends` — leases.
- `Engine.abandon_barred` — an engine that gives its operation up.
- `Application.engine_neverLends`, `Application.dropEngine_neverLends` — engines.
- `Application.recycling` — what becomes of a session that is not open.
-/

namespace Cryptoki

variable {ops : KeyOperations} {gone : SessionId → Prop}

/-! ## Engines -/

section

variable {e : Engine} {p : Pool (Logged (Software ops))} {session : SessionId}
  {others : List Lease}

/-- **An engine that gives its operation up lets go of a session that is not open.** -/
theorem Engine.abandon_barred (hhoused : p.Housed gone (e.lease.toList ++ others))
    (hstate : e.state = .initialized) (hlease : e.lease = some ⟨session, true⟩)
    (hclosed : p.token.token.sessions.slot? session = none) :
    (e.abandon p).2.Barred session ((e.abandon p).1.lease.toList ++ others) := by
  have hlost := abandon_lost hstate hlease hclosed
  rcases ((keeps_housed gone).uses others).abandon_cases hstate hlease hhoused with
    hkept | ⟨lease, q, rfl, hhoused, hpool⟩
  · exact absurd hlost hkept
  · rw [hlost, hpool]
    exact Pool.Housed.discard_barred hhoused

end

namespace Application

variable {a : Application (Logged (Software ops))} {name : String} {lease : Lease} {e : Engine}
  {session : SessionId}

/-- The session is neither idle nor leased, and will not be, whatever is done. -/
def NeverLends (session : SessionId) (a : Application (Logged (Software ops))) : Prop :=
  ∀ further, session ∉ (a.after further).pool.sessionsWith (a.after further).allLeases

theorem NeverLends.of_barred (h : a.pool.Barred session a.allLeases) : a.NeverLends session :=
  fun further => (after_barred h further).out

/-! ## Leases -/

theorem discardLease_neverLends (h : a.pool.Housed gone a.allLeases)
    (hget : a.leases.get? name = some lease) :
    (a.step (.discardLease name)).2.NeverLends lease.session := by
  have hhoused := (keeps_housed gone).perm (leasesOf_perm_lease hget) h
  apply NeverLends.of_barred
  simp only [step, hget]
  exact Pool.Housed.discard_barred hhoused

/-- A session is not lent again if its lease is closed while an operation is under way. -/
theorem closeLease_neverLends (h : a.pool.Housed gone a.allLeases)
    (hget : a.leases.get? name = some lease) (hactive : lease.active = true) :
    (a.step (.closeLease name)).2.NeverLends lease.session := by
  have hclose : (a.step (.closeLease name)).2 = (a.step (.discardLease name)).2 := by
    simp only [step, hget, Lease.close, Lease.discard, hactive, if_true]
  rw [hclose]
  exact discardLease_neverLends h hget

/-! ## Engines -/

theorem dropEngine_neverLends (h : a.pool.Housed gone a.allLeases)
    (hget : a.engines.get? name = some e) (hlease : e.lease = some ⟨session, true⟩) :
    (a.step (.dropEngine name)).2.NeverLends session := by
  have hhoused := (keeps_housed gone).perm (leasesOf_perm_engine hget) h
  rw [hlease] at hhoused
  apply NeverLends.of_barred
  simp only [step, hget, Engine.close, hlease]
  exact Pool.Housed.discard_barred hhoused

/-- **An engine whose session is not open gives it up for good** when it is cancelled or started
    again. -/
theorem engine_neverLends {request : Engine.Request} (h : a.pool.Housed gone a.allLeases)
    (hdead : a.pool.token.token.Dead session) (hget : a.engines.get? name = some e)
    (hstate : e.state = .initialized) (hlease : e.lease = some ⟨session, true⟩)
    (hrequest : request = .cancel ∨ ∃ key mode, request = .init key mode) :
    (a.step (.engine name request)).2.NeverLends session := by
  let others := leasesOf (a.engines.erase name) a.leases
  have hhoused : a.pool.Housed gone (e.lease.toList ++ others) :=
    (keeps_housed gone).perm (leasesOf_perm_engine hget) h
  have hbarred : Keeps fun l (p : Pool (Logged (Software ops))) =>
      p.Barred session (l.toList ++ others) := (keeps_barred session).uses others
  suffices hout : (e.handle request a.pool).2.2.Barred session
      ((e.handle request a.pool).2.1.lease.toList ++ others) by
    apply NeverLends.of_barred
    simp only [step, hget]
    rw [allLeases, leasesOf_insert_engine]
    exact hout
  rcases hrequest with rfl | ⟨key, mode, rfl⟩
  · exact hbarred.giveBack (Engine.abandon_barred hhoused hstate hlease hdead.closed)
  · -- the key is checked before the operation is given up
    have hasked := ((keeps_housed gone).uses others).accept hhoused key mode
    have hclosed := ((keeps_dead session).accept (e := e) hdead key mode).closed
    exact hbarred.startWith_of_abandoned (Engine.abandon_barred hasked hstate hlease hclosed)

/-- A call that is told that its session is not open leaves that to the next who asks for one. -/
theorem engine_recycles (h : a.pool.Housed gone a.allLeases) (hcoherent : a.Coherent)
    (hget : a.engines.get? name = some e) {request : Engine.Request} {operation : Operation}
    (htold : (e.handle request a.pool).1
      = .error (.tokenFailure operation .sessionHandleInvalid)) :
    ∃ session, gone session ∧ (a.step (.engine name request)).2.pool.Recycles session := by
  obtain ⟨session, hrecycles⟩ := Engine.handle_recycles (hcoherent.engine hget) htold
  have hpool : (a.step (.engine name request)).2.pool = (e.handle request a.pool).2.2 := by
    simp only [step, hget]
  rw [← hpool] at hrecycles
  have hhoused := (keeps_housed gone).step (c := .engine name request) h
    fun call hcall => by cases hcall
  refine ⟨session, ?_, hrecycles⟩
  by_contra hopen
  exact hhoused.isOpen session (List.mem_append_left _ hrecycles.idle) hopen hrecycles.closed

/-! ## Leases that are told -/

section

variable {primitive : Primitive}

/-- A session that a lease was told is not open will not be open again. -/
theorem told_dead (h : a.pool.Housed gone a.allLeases) (hget : a.leases.get? name = some lease)
    (htold : (lease.operate primitive a.pool).1 = .error .sessionHandleInvalid) :
    (a.step (.lease name primitive)).2.pool.token.token.Dead lease.session := by
  obtain ⟨hclosed, hsame⟩ := Lease.operate_lost (Prod.ext htold rfl)
  have hhoused := (keeps_housed gone).perm (leasesOf_perm_lease hget) h
  have hdead : a.pool.token.token.Dead lease.session :=
    ⟨hclosed, hhoused.numbered _ (List.mem_append_right _ List.mem_cons_self)⟩
  simp only [step, hget]
  exact hdead.congr (congrArg Software.sessions hsame)

/-- When it is given back, it goes by what the lease knows of an operation. -/
theorem told_closed (h : a.pool.Housed gone a.allLeases) (hget : a.leases.get? name = some lease)
    (htold : (lease.operate primitive a.pool).1 = .error .sessionHandleInvalid) :
    let told := (a.step (.lease name primitive)).2
    let closed := (told.step (.closeLease name)).2
    (told.step (.discardLease name)).2.NeverLends lease.session
      ∧ if (lease.operate primitive a.pool).2.1.active
        then closed.NeverLends lease.session else closed.pool.Recycles lease.session := by
  intro told closed
  rcases hop : lease.operate primitive a.pool with ⟨result, held, q⟩
  rw [hop] at htold
  obtain rfl : result = .error .sessionHandleInvalid := htold
  have hsession : held.session = lease.session := by rw [(Lease.operate_cases hop).1]
  have hstep : told = { a with pool := q, leases := a.leases.insert name held } := by
    simp only [told, step, hget, hop]
  have hheld : told.leases.get? name = some held := by
    rw [hstep]
    exact Table.get?_insert_self ..
  have hhoused : told.pool.Housed gone told.allLeases :=
    (keeps_housed gone).step h fun call hcall => by cases hcall
  refine ⟨hsession ▸ discardLease_neverLends hhoused hheld, ?_⟩
  split
  · next hactive => exact hsession ▸ closeLease_neverLends hhoused hheld hactive
  · next hactive =>
      have hpool : closed.pool = held.close q := by
        simp only [closed, step, hheld]
        rw [hstep]
      have hrest : primitive.activeAfter lease.active false = false := by
        simpa [(Lease.operate_cases hop).1, Except.isOk, Except.toBool] using hactive
      rw [hpool]
      exact Lease.close_recycles hop hrest

end

/-! ## Runs -/

/-- **What becomes of a session that is not open.** Over one pool and the token in memory, and after
    any actions, of which some may close sessions past the pool:
    - the sessions that are idle or leased are all different, and each of them is open unless it was
      closed past the pool;
    - if a primitive of a lease is told that the session is not open, the session will never be open
      again. Discarding the lease ends its use for good, and so does closing it if an operation was
      under way and another was to be started. In all other cases, closing the lease makes the
      session idle, and whoever asks next gets it;
    - if a call of an engine is told so, be it a start, a part of a message or the end of one, then a
      session that was closed past the pool is idle, and whoever asks next gets it;
    - if the session of an engine is not open, its use ends for good when the engine is cancelled,
      started again or dropped. -/
theorem recycling (limit : Option Nat) (sessionObjects : Bool) (config : PoolConfig)
    (actions : List Action) :
    let token : Software ops := .empty limit sessionObjects
    let a := (start (.empty (Logged.start token) config)).after actions
    ((a.pool.sessionsWith a.allLeases).Nodup
        ∧ ∀ session ∈ a.pool.sessionsWith a.allLeases, ¬ ClosesPast actions session →
          a.pool.token.token.sessions.slot? session ≠ none)
      ∧ (∀ name lease primitive, a.leases.get? name = some lease →
          (lease.operate primitive a.pool).1 = .error .sessionHandleInvalid →
          let held := (lease.operate primitive a.pool).2.1
          let told := (a.step (.lease name primitive)).2
          let closed := (told.step (.closeLease name)).2
          (∀ further,
              (told.after further).pool.token.token.sessions.slot? lease.session = none)
            ∧ (told.step (.discardLease name)).2.NeverLends lease.session
            ∧ (held.active = true ↔
              lease.active = true ∧ ∃ mode mechanism key, primitive = .init mode mechanism key)
            ∧ if held.active then closed.NeverLends lease.session
              else closed.pool.Recycles lease.session)
      ∧ (∀ name e request operation, a.engines.get? name = some e →
          (e.handle request a.pool).1 = .error (.tokenFailure operation .sessionHandleInvalid) →
          ∃ session, ClosesPast actions session
            ∧ (a.step (.engine name request)).2.pool.Recycles session)
      ∧ ∀ name e lease, a.engines.get? name = some e → e.lease = some lease →
          a.pool.token.token.sessions.slot? lease.session = none →
          (a.step (.engine name .cancel)).2.NeverLends lease.session
            ∧ (∀ key mode,
              (a.step (.engine name (.init key mode))).2.NeverLends lease.session)
            ∧ (a.step (.dropEngine name)).2.NeverLends lease.session := by
  intro token a
  have hhoused : a.pool.Housed (ClosesPast actions) a.allLeases :=
    after_housed (start_housed _ limit sessionObjects config) fun _ h => h
  have hcoherent : a.Coherent := (start_coherent _).after actions
  refine ⟨⟨hhoused.nodup, hhoused.isOpen⟩, ?_, ?_, ?_⟩
  · intro name lease primitive hget htold held told closed
    have hdead : told.pool.token.token.Dead lease.session := told_dead hhoused hget htold
    obtain ⟨hdiscarded, hclosed⟩ := told_closed hhoused hget htold
    refine ⟨fun further => (after_dead hdead further).closed, hdiscarded, ?_, hclosed⟩
    show primitive.activeAfter lease.active (lease.operate primitive a.pool).1.isOk = true ↔ _
    rw [htold]
    cases primitive with
    | init mode mechanism key =>
        have hsame : Primitive.activeAfter lease.active false (.init mode mechanism key)
            = lease.active := rfl
        simp [Except.isOk, Except.toBool, hsame]
    | _ => simp [Except.isOk, Except.toBool, Primitive.activeAfter]
  · intro name e request operation hget htold
    exact engine_recycles hhoused hcoherent hget htold
  · intro name e lease hget hlease hclosed
    obtain ⟨hstate, hactive⟩ := (hcoherent.engine hget).busy_of_lease hlease
    rw [hactive] at hlease
    have hheld := (keeps_housed _).perm (leasesOf_perm_engine hget) hhoused
    rw [hlease] at hheld
    have hdead : a.pool.token.token.Dead lease.session :=
      ⟨hclosed, hheld.numbered _ (List.mem_append_right _ List.mem_cons_self)⟩
    refine ⟨engine_neverLends hhoused hdead hget hstate hlease (.inl rfl), ?_,
      dropEngine_neverLends hhoused hget hlease⟩
    intro key mode
    exact engine_neverLends hhoused hdead hget hstate hlease (.inr ⟨key, mode, rfl⟩)

/-- A lease and an engine have a session each, and both sessions are closed past the pool. -/
def lost : List Action :=
  [.importEc ⟨1, Nat.one_pos, Secp256k1.one_lt_order⟩,
    .command (.acquire "lease"),
    .command (.newEngine "signer" "NONEwithECDSA" .ecdsa),
    .command (.engine "signer" (.init ⟨⟨1⟩, .privateKey, .ec 256⟩ .sign)),
    .command (.engine "signer" (.update [1])),
    .command (.token (.closeSession ⟨1⟩)),
    .command (.token (.closeSession ⟨2⟩))]

/-- The lease is told when it is used, and the engine when it is to sign; a cancelled engine does not
    ask. -/
theorem recycling_of_lost :
    let a := (start (.empty (Logged.start (.empty none false : Software .standard)) {})).after lost
    let told := (a.step (.lease "lease" (.sign []))).2
    (told.step (.closeLease "lease")).2.pool.Recycles ⟨1⟩
      ∧ (∃ session, ClosesPast lost session
        ∧ (a.step (.engine "signer" .sign)).2.pool.Recycles session)
      ∧ (a.step (.engine "signer" .cancel)).2.NeverLends ⟨2⟩ := by
  intro a told
  obtain ⟨_, hleases, htold, hlost⟩ := @recycling .standard none false {} lost
  have hget : a.leases.get? "lease" = some ⟨⟨1⟩, false⟩ := by decide +kernel
  have hengine : (a.engines.get? "signer").map (fun e =>
      (e.lease, (e.handle .sign a.pool).1))
      = some (some ⟨⟨2⟩, true⟩, .error (.tokenFailure .sign .sessionHandleInvalid)) := by
    decide +kernel
  obtain ⟨e, hfound, hparts⟩ := Option.map_eq_some_iff.mp hengine
  obtain ⟨hlease, hsign⟩ := Prod.mk.inj hparts
  obtain ⟨_, _, _, hclosed⟩ := hleases "lease" _ (.sign []) hget (by decide +kernel)
  refine ⟨hclosed, htold "signer" e .sign _ hfound hsign, ?_⟩
  exact (hlost "signer" e _ hfound hlease (by decide +kernel)).1

/-- So a session can be idle that is not open, after a lease of it was told so. -/
theorem lost_recycled :
    let a := (start (.empty (Logged.start (.empty none false : Software .standard)) {})).after lost
    let told := (a.step (.lease "lease" (.sign []))).2
    let closed := (told.step (.closeLease "lease")).2
    (a.leases.get? "lease").map (fun lease => (lease.operate (.sign []) a.pool).1)
        = some (.error .sessionHandleInvalid)
      ∧ closed.pool.idle = [⟨1⟩]
      ∧ closed.pool.token.token.sessions.slot? ⟨1⟩ = none
      ∧ closed.pool.acquire.1 = .ok ⟨⟨1⟩, false⟩ := by
  decide +kernel

end Application

end Cryptoki
