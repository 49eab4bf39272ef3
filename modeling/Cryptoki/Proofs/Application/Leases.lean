import Cryptoki.Proofs.Application.Agreement
import Cryptoki.Proofs.Application.Keeps

/-!
# `Cryptoki.Proofs.Application.Leases` — what holds of all leases together

Some conditions are about the pool and all leases of its sessions at once, be they in the hands of
engines or driven directly: how many there are, or that no two are on one session. If each use of one
lease keeps such a condition, whatever the others are, then so does every command, and so do any
commands one after the other. What is left to look at are the calls that go past the pool, and keys
that are stored.

## Contents
- `Application.leasesOf`, `Application.allLeases` — all leases.
- `KeepsAll` — each use of one lease keeps a condition on all of them.
- `KeepsAll.step`, `KeepsAll.run`, `KeepsAll.after` — so do commands.
- `Application.Coherent` — the engines are coherent, after any commands.
-/

namespace Cryptoki

namespace Application

/-! ## All leases -/

/-- The leases of engines, and those that are driven directly. -/
def leasesOf (engines : Table String Engine) (leases : Table String Lease) : List Lease :=
  (tenantsOf engines leases).map Tenant.lease

variable {engines : Table String Engine} {leases : Table String Lease} {name : String}
  {e : Engine} {lease : Lease}

theorem lease_tenants (e : Engine) : e.tenants.map Tenant.lease = e.lease.toList := by
  cases hlease : e.lease with
  | none => rw [Engine.tenants_of_none hlease]; rfl
  | some lease => rw [Engine.tenants_of_some hlease]; rfl

/-- The lease of one engine, and all others. -/
theorem leasesOf_perm_engine (h : engines.get? name = some e) :
    (leasesOf engines leases).Perm (e.lease.toList ++ leasesOf (engines.erase name) leases) := by
  rw [← lease_tenants, leasesOf, leasesOf, ← List.map_append]
  exact (tenantsOf_perm_engine h).map _

theorem leasesOf_engine_none (h : engines.get? name = none) :
    leasesOf engines leases = leasesOf (engines.erase name) leases :=
  congrArg (List.map Tenant.lease) (tenantsOf_engine_none h)

theorem leasesOf_insert_engine (engines : Table String Engine) (leases : Table String Lease)
    (name : String) (e : Engine) :
    leasesOf (engines.insert name e) leases
      = e.lease.toList ++ leasesOf (engines.erase name) leases := by
  rw [← lease_tenants, leasesOf, leasesOf, ← List.map_append, tenantsOf_insert_engine]

/-- One lease that is driven directly, and all others. -/
theorem leasesOf_perm_lease (h : leases.get? name = some lease) :
    (leasesOf engines leases).Perm (lease :: leasesOf engines (leases.erase name)) :=
  (tenantsOf_perm_lease h).map Tenant.lease

theorem leasesOf_lease_none (h : leases.get? name = none) :
    leasesOf engines leases = leasesOf engines (leases.erase name) :=
  congrArg (List.map Tenant.lease) (tenantsOf_lease_none h)

theorem leasesOf_insert_lease (engines : Table String Engine) (leases : Table String Lease)
    (name : String) (lease : Lease) :
    (lease :: leasesOf engines (leases.erase name)).Perm
      (leasesOf engines (leases.insert name lease)) :=
  (tenantsOf_insert_lease engines leases name lease).map Tenant.lease

/-- All leases of an application. -/
def allLeases {τ : Type} (a : Application τ) : List Lease := leasesOf a.engines a.leases

end Application

/-! ## Conditions on all leases -/

/-- Each use of one lease keeps a condition on all leases and the pool, in which the order of the
    leases does not matter. -/
structure KeepsAll {τ : Type} [Token τ] (J : List Lease → Pool τ → Prop) : Prop where
  perm {ls ls' : List Lease} {p : Pool τ} : ls.Perm ls' → J ls p → J ls' p
  uses (others : List Lease) : Keeps fun l p => J (l.toList ++ others) p

namespace KeepsAll

open Application

section

variable {τ : Type} [Token τ] {J K : List Lease → Pool τ → Prop} {a : Application τ} {c : Command}

theorem and (hJ : KeepsAll J) (hK : KeepsAll K) : KeepsAll fun ls p => J ls p ∧ K ls p where
  perm hperm h := ⟨hJ.perm hperm h.1, hK.perm hperm h.2⟩
  uses others := (hJ.uses others).and (hK.uses others)

/-- What each use of a lease keeps of the pool alone. -/
theorem of_pool {P : Pool τ → Prop} (hP : Keeps fun _ p => P p) : KeepsAll fun _ p => P p :=
  ⟨fun _ h => h, fun _ => hP⟩

/-- **A command keeps what each use of one lease keeps.** -/
theorem step (hJ : KeepsAll J) (h : J a.allLeases a.pool)
    (htoken : ∀ call, c = .token call → J a.allLeases (a.pool.call call).2) :
    J (a.step c).2.allLeases (a.step c).2.pool := by
  have hengine {name : String} {e : Engine} (hget : a.engines.get? name = some e) :
      J (e.lease.toList ++ leasesOf (a.engines.erase name) a.leases) a.pool :=
    hJ.perm (leasesOf_perm_engine hget) h
  have hlease {name : String} {lease : Lease} (hget : a.leases.get? name = some lease) :
      J (lease :: leasesOf a.engines (a.leases.erase name)) a.pool :=
    hJ.perm (leasesOf_perm_lease hget) h
  cases c with
  | newEngine name algorithm mechanism =>
      simp only [Application.step]
      cases hnew : Engine.new algorithm mechanism with
      | error err => exact h
      | ok engine =>
          obtain ⟨scheme, _, rfl⟩ := Engine.new_ok hnew
          show J (leasesOf (a.engines.insert name (Engine.ofScheme scheme)) a.leases) _
          rw [leasesOf_insert_engine]
          dsimp only
          cases hget : a.engines.get? name with
          | none =>
              rw [← leasesOf_engine_none hget]
              exact h
          | some old => exact (hJ.uses _).closed (hengine hget)
  | engine name request =>
      simp only [Application.step]
      cases hget : a.engines.get? name with
      | none => exact h
      | some e =>
          show J (leasesOf (a.engines.insert name (e.handle request a.pool).2.1) a.leases) _
          rw [leasesOf_insert_engine]
          exact (hJ.uses _).handle (hengine hget) request
  | dropEngine name =>
      simp only [Application.step]
      cases hget : a.engines.get? name with
      | none => exact h
      | some e => exact (hJ.uses _).closed (hengine hget)
  | acquire name =>
      simp only [Application.step]
      rcases hacq : a.pool.acquire with ⟨err | lease, pool⟩
      · exact (hJ.uses a.allLeases).acquire h hacq
      · have hacquired : J (lease :: a.allLeases) pool := (hJ.uses a.allLeases).acquire h hacq
        show J (leasesOf a.engines (a.leases.insert name lease)) _
        refine hJ.perm (leasesOf_insert_lease a.engines a.leases name lease) ?_
        dsimp only
        -- the old lease, if there is one, is another one until it is closed
        cases hget : a.leases.get? name with
        | none =>
            rw [← leasesOf_lease_none hget]
            exact hacquired
        | some old =>
            have hold := hJ.perm (((leasesOf_perm_lease hget).cons lease).trans (.swap _ _ _))
              hacquired
            exact (hJ.uses _).close hold
  | lease name primitive =>
      simp only [Application.step]
      cases hget : a.leases.get? name with
      | none => exact h
      | some lease =>
          exact hJ.perm (leasesOf_insert_lease a.engines a.leases name _)
            ((hJ.uses _).operate (hlease hget) rfl)
  | closeLease name =>
      simp only [Application.step]
      cases hget : a.leases.get? name with
      | none => exact h
      | some lease => exact (hJ.uses _).close (hlease hget)
  | discardLease name =>
      simp only [Application.step]
      cases hget : a.leases.get? name with
      | none => exact h
      | some lease => exact (hJ.uses _).discard (hlease hget)
  | token call => exact htoken call rfl

/-- Commands one after the other keep it, if the calls past the pool do. -/
theorem run (hJ : KeepsAll J) {commands : List Command}
    (htoken : ∀ call, .token call ∈ commands → ∀ ls p, J ls p → J ls (p.call call).2)
    (h : J a.allLeases a.pool) :
    J (a.run commands).2.allLeases (a.run commands).2.pool := by
  induction commands generalizing a with
  | nil => exact h
  | cons c commands ih =>
      have hstep : J (a.step c).2.allLeases (a.step c).2.pool :=
        hJ.step h fun call hc => htoken call (hc ▸ List.mem_cons_self) _ _ h
      exact ih (fun call hmem => htoken call (List.mem_cons_of_mem c hmem)) hstep

end

section

variable {ops : KeyOperations} {J : List Lease → Pool (Logged (Software ops)) → Prop}
  {a : Application (Logged (Software ops))}

/-- So do actions, if it does not matter which keys are stored. -/
theorem after (hJ : KeepsAll J) {actions : List Action}
    (htoken : ∀ call, .command (.token call) ∈ actions → ∀ ls p, J ls p → J ls (p.call call).2)
    (hkeys : ∀ ls p (u : Software ops), u.sessions = p.token.token.sessions → J ls p →
      J ls { p with token := ⟨u, p.token.log⟩ })
    (h : J a.allLeases a.pool) :
    J (a.after actions).allLeases (a.after actions).pool := by
  induction actions generalizing a with
  | nil => exact h
  | cons action actions ih =>
      refine ih (fun call hmem => htoken call (List.mem_cons_of_mem action hmem)) ?_
      cases action with
      | importRsa k => exact hkeys _ _ _ rfl h
      | importEc k => exact hkeys _ _ _ rfl h
      | command c => exact hJ.step h fun call hc => htoken call (hc ▸ List.mem_cons_self) _ _ h

end

end KeepsAll

/-! ## Engines -/

namespace Application

variable {τ : Type} [Token τ] {a : Application τ}

/-- The engines are coherent. -/
def Coherent (a : Application τ) : Prop := ∀ e ∈ a.engines.values, e.Coherent e.scheme

omit [Token τ] in
theorem Coherent.engine {name : String} {e : Engine} (h : a.Coherent)
    (hget : a.engines.get? name = some e) : e.Coherent e.scheme :=
  h e (Table.mem_values.mpr ⟨name, hget⟩)

omit [Token τ] in
theorem Coherent.insert {e : Engine} {scheme : Scheme} {pool : Pool τ} (h : a.Coherent)
    (he : e.Coherent scheme) (name : String) :
    Coherent { a with pool, engines := a.engines.insert name e } := by
  intro e' hmem
  rcases Table.mem_values_insert hmem with rfl | hmem
  · rw [he.scheme_eq]
    exact he
  · exact h e' hmem

theorem Coherent.step (h : a.Coherent) (c : Command) : (a.step c).2.Coherent := by
  cases c with
  | newEngine name algorithm mechanism =>
      simp only [Application.step]
      cases hnew : Engine.new algorithm mechanism with
      | error err => exact h
      | ok engine =>
          obtain ⟨scheme, _, rfl⟩ := Engine.new_ok hnew
          exact h.insert (Engine.ofScheme_coherent scheme) name
  | engine name request =>
      simp only [Application.step]
      cases hget : a.engines.get? name with
      | none => exact h
      | some e => exact h.insert (Engine.handle_coherent (h.engine hget) request a.pool) name
  | dropEngine name =>
      simp only [Application.step]
      cases hget : a.engines.get? name with
      | none => exact h
      | some e => exact fun e' hmem => h e' (Table.mem_values_erase hmem)
  -- the other commands leave the engines alone
  | acquire name => simp only [Application.step]; split <;> exact h
  | lease name primitive => simp only [Application.step]; split <;> exact h
  | closeLease name => simp only [Application.step]; split <;> exact h
  | discardLease name => simp only [Application.step]; split <;> exact h
  | token call => exact h

theorem Coherent.run (h : a.Coherent) (commands : List Command) : (a.run commands).2.Coherent := by
  induction commands generalizing a with
  | nil => exact h
  | cons c commands ih => exact ih (h.step c)

theorem Coherent.after {ops : KeyOperations} {a : Application (Logged (Software ops))}
    (h : a.Coherent) (actions : List Action) : (a.after actions).Coherent := by
  induction actions generalizing a with
  | nil => exact h
  | cons action actions ih =>
      apply ih
      cases action with
      | importRsa k => exact h
      | importEc k => exact h
      | command c => exact h.step c

omit [Token τ] in
theorem start_coherent (pool : Pool τ) : (start pool).Coherent := fun _ hmem => nomatch hmem

end Application

end Cryptoki
