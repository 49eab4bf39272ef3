import Cryptoki.Proofs.Engine.Lifecycle
import Cryptoki.Proofs.Pool.Tidy

/-!
# `Cryptoki.Proofs.Engine.Tenancy` — an engine as one of the tenants of a pool

An engine's session is a tenancy like any other, and while the engine is initialized it has a
purpose: the engine's mode and mechanism, and the key that is bound. Every call of the engine keeps
the pool tidy. The argument follows the ways each call can go; what has to be seen is that a session
is at rest whenever an operation is started on it, and that it has the engine's own operation
whenever one is fed or ended.

## Contents
- `Engine.purpose`, `Engine.tenants` — what the engine has.
- `Engine.start_tidy`, `Engine.abandon_tidy`, `Engine.update_tidy`, `Engine.finish_tidy` — the parts.
- `Engine.handle_tidy`, `Engine.close_tidy` — every call keeps the pool tidy.
-/

namespace Cryptoki.Engine

/-! ## What an engine has -/

/-- What the operation under way is for. -/
def purpose (e : Engine) : Option Purpose :=
  match e.state, e.mode, e.key with
  | .initialized, some mode, some key => some ⟨mode, e.scheme.mechanism, key.handle⟩
  | _, _, _ => none

/-- The engine as a tenant, if it holds a session. -/
def tenants (e : Engine) : List Tenant := e.lease.toList.map (⟨·, e.purpose⟩)

variable {e e' : Engine}

theorem purpose_of_rest (h : e.state = .uninitialized) : e.purpose = none := by
  simp [purpose, h]

theorem purpose_of_operation {mode : OperationMode} {key : Key} (h : e.state = .initialized)
    (hmode : e.mode = some mode) (hkey : e.key = some key) :
    e.purpose = some ⟨mode, e.scheme.mechanism, key.handle⟩ := by
  simp [purpose, h, hmode, hkey]

theorem tenants_of_none (h : e.lease = none) : e.tenants = [] := by simp [tenants, h]

theorem tenants_of_some {lease : Lease} (h : e.lease = some lease) :
    e.tenants = [⟨lease, e.purpose⟩] := by simp [tenants, h]

/-- At rest only the session matters, and not what is bound. -/
theorem tenants_rebound (h : e.state = .uninitialized) (key : Option Key)
    (mode : Option OperationMode) : { e with key, mode }.tenants = e.tenants := by
  rw [tenants, tenants, purpose_of_rest h, purpose_of_rest (e := { e with key, mode }) h]

variable {ops : KeyOperations} {t : Logged (Software ops)} {p q : Pool (Logged (Software ops))}
  {rest : List Tenant} {scheme : Scheme}

/-! ## Starting -/

/-- The session for an operation is at rest. -/
theorem obtainLease_tidy {lease : Lease} (h : Tidy t p (e.tenants ++ rest))
    (hstate : e.state = .uninitialized) (hrest : ∀ l, e.lease = some l → l.active = false)
    (hobtained : e.obtainLease p = (.ok lease, q)) :
    Tidy t q (⟨lease, none⟩ :: rest) ∧ lease.active = false := by
  unfold obtainLease at hobtained
  split at hobtained
  · next held hlease =>
      obtain ⟨hsame, rfl⟩ := Prod.mk.inj hobtained
      obtain rfl := Except.ok.inj hsame
      rw [tenants_of_some hlease, purpose_of_rest hstate] at h
      exact ⟨h, hrest held hlease⟩
  · next hlease =>
      rw [tenants_of_none hlease] at h
      exact h.acquire_ok hobtained

theorem start_tidy {result : Except EngineError Unit} (h : Tidy t p (e.tenants ++ rest))
    (hstate : e.state = .uninitialized) (hrest : ∀ l, e.lease = some l → l.active = false)
    (hstart : e.start p = (result, e', q)) : Tidy t q (e'.tenants ++ rest) := by
  have hstarted := e.started p
  rw [hstart] at hstarted
  cases hstarted with
  | unbound => exact h
  | starved hlease hacq =>
      rw [tenants_of_none hlease] at h ⊢
      exact h.acquire_error hacq
  | @refused key mode lease lease' q r code _ _ hobtained hinit =>
      obtain ⟨hsession, hactive⟩ := obtainLease_tidy h hstate hrest hobtained
      rw [tenants_of_none (e.afterRefusal_lease mode code)]
      exact (hsession.init_error hactive hinit).close
  | @begun key mode lease lease' q r hkey hmode hobtained hinit =>
      obtain ⟨hsession, hactive⟩ := obtainLease_tidy h hstate hrest hobtained
      have hpurpose : ({ e with
          pending := e.pending.reset, lease := some lease', state := .initialized } : Engine).purpose
            = some ⟨mode, e.scheme.mechanism, key.handle⟩ := purpose_of_operation rfl hmode hkey
      rw [tenants_of_some rfl, hpurpose]
      exact hsession.init_ok hinit

theorem Coherent.at_rest (h : e.Coherent scheme) (hstate : e.state = .uninitialized) :
    ∀ l, e.lease = some l → l.active = false := by
  intro l hl
  rw [h.idle hstate] at hl
  cases hl

theorem ensureStarted_tidy {result : Except EngineError Unit} (hcoherent : e.Coherent scheme)
    (h : Tidy t p (e.tenants ++ rest)) (hstart : e.ensureStarted p = (result, e', q)) :
    Tidy t q (e'.tenants ++ rest) := by
  unfold ensureStarted at hstart
  split at hstart
  · obtain ⟨_, rfl, rfl⟩ := hstart
    exact h
  · next hstate => exact start_tidy h hstate (hcoherent.at_rest hstate) hstart

/-! ## Giving up -/

/-- The last primitive of an operation, if one is called, leaves the tenant with its session. -/
theorem Ended.tidy {kind : Primitive → Prop} {tenant : Tenant} {purpose : Purpose}
    {lease' : Lease} (h : Tidy t p (tenant :: rest)) (hpurpose : tenant.purpose = some purpose)
    (hkind : ∀ primitive, kind primitive → primitive.Ends purpose.mode)
    (hend : Ended kind tenant.lease p (lease', q)) :
    ∃ purpose', Tidy t q (⟨lease', purpose'⟩ :: rest) := by
  cases hend with
  | silent => exact ⟨tenant.purpose, h⟩
  | called hc hop => exact ⟨none, (h.finish hpurpose (hkind _ hc) hop).1⟩

/-- Giving an operation up leaves the session at rest, if it stays. -/
theorem abandon_tidy (hcoherent : e.Coherent scheme) (h : Tidy t p (e.tenants ++ rest)) :
    Tidy t (e.abandon p).2 ((e.abandon p).1.tenants ++ rest)
      ∧ ∀ l, (e.abandon p).1.lease = some l → l.active = false := by
  have habandoned := e.abandoned p
  generalize e.abandon p = out at habandoned ⊢
  cases habandoned with
  | idle hstate => exact ⟨h, hcoherent.at_rest hstate⟩
  | bare _ hlease =>
      refine ⟨?_, fun l hl => nomatch hlease.symm.trans hl⟩
      rw [tenants_of_none hlease] at h
      rw [tenants_of_none (e := { e with state := .uninitialized }) hlease]
      exact h
  | rested hstate hlease hactive =>
      -- the session of an engine that is initialized is never at rest
      obtain ⟨session, key, hheld, _⟩ := hcoherent.busy hstate
      obtain rfl := Option.some.inj (hlease.symm.trans hheld)
      cases hactive
  | @discarded lease lease' q pending hstate hlease _ hend =>
      obtain ⟨session, key, mode, hheld, hkey, hmode⟩ := hcoherent.operation hstate
      rw [tenants_of_some hlease, purpose_of_operation hstate hmode hkey] at h
      -- the primitive that ends the operation is in the mode that the token knows it by
      have hends : ∀ c : Primitive, (∃ mode, e.mode = some mode ∧ c.Ends mode) → c.Ends mode := by
        rintro c ⟨mode', hmode', hc⟩
        rw [hmode] at hmode'
        exact Option.some.inj hmode' ▸ hc
      obtain ⟨_, hended⟩ := Ended.tidy h rfl hends hend
      rw [tenants_of_none rfl]
      exact ⟨hended.discard, fun l hl => nomatch hl⟩
  | @kept lease lease' q pending mode primitive result hstate hlease _ hmode hends hop =>
      obtain ⟨session, key, _, hheld, hkey, _⟩ := hcoherent.operation hstate
      rw [tenants_of_some hlease, purpose_of_operation hstate hmode hkey] at h
      obtain ⟨hfinished, hactive⟩ := h.finish rfl hends hop
      rw [tenants_of_some rfl]
      exact ⟨hfinished, fun l hl => Option.some.inj hl ▸ hactive⟩

theorem giveBack_tidy (h : Tidy t p (e.tenants ++ rest)) :
    Tidy t (e.giveBack p).2 ((e.giveBack p).1.tenants ++ rest) := by
  unfold giveBack
  split
  · next hlease =>
      rw [tenants_of_none hlease] at h
      rw [tenants_of_none (e := { e with state := .uninitialized }) hlease]
      exact h
  · next lease hlease =>
      rw [tenants_of_some hlease] at h
      rw [tenants_of_none rfl]
      exact h.close

/-! ## Every call -/

theorem accept_tidy {tenants : List Tenant} (key : Key) (mode : OperationMode)
    (h : Tidy t p tenants) : Tidy t (e.accept key mode p).2 tenants := by
  rcases e.accept_pool key mode p with hpool | hpool
  · rw [hpool]
    exact h
  · rw [hpool]
    exact h.mechanismInfo e.scheme.mechanism

theorem startWith_tidy (hcoherent : e.Coherent scheme) (key : Key) (mode : OperationMode)
    (h : Tidy t p (e.tenants ++ rest)) :
    Tidy t (e.startWith key mode p).2.2 ((e.startWith key mode p).2.1.tenants ++ rest) := by
  have hq := accept_tidy (e := e) key mode h
  unfold startWith
  generalize e.accept key mode p = checked at hq ⊢
  obtain ⟨check, q⟩ := checked
  obtain ⟨habandoned, hrest⟩ := abandon_tidy hcoherent hq
  have hstate := (abandon_bound q hcoherent.toBound).2
  dsimp only
  -- at rest an engine is the same tenant whatever key and mode are bound
  cases check with
  | error fault =>
      rw [← tenants_rebound hstate none (e.abandon q).1.mode] at habandoned
      exact giveBack_tidy habandoned
  | ok u =>
      rw [← tenants_rebound hstate (some key) (some mode)] at habandoned
      exact start_tidy habandoned hstate hrest rfl

theorem update_tidy (hcoherent : e.Coherent scheme) (data : Bytes)
    (h : Tidy t p (e.tenants ++ rest)) :
    Tidy t (e.update data p).2.2 ((e.update data p).2.1.tenants ++ rest) := by
  have hupdated := hcoherent.updated data p
  generalize e.update data p = out at hupdated ⊢
  cases hupdated with
  | notStarted hstate hstart => exact start_tidy h hstate (hcoherent.at_rest hstate) hstart
  | empty hstart => exact ensureStarted_tidy hcoherent h hstart
  | gathered hstart =>
      have hstarted := ensureStarted_tidy hcoherent h hstart
      exact hstarted
  | @forwarded e' q r mode lease lease' hstart _ _ hmode hlease hop =>
      have hstarted := ensureStarted_tidy hcoherent h hstart
      obtain ⟨hcoherent', _, _, hstate⟩ := hcoherent.ensureStarted hstart
      obtain ⟨_, key, _, _, hkey, _⟩ := hcoherent'.operation hstate
      have hpurpose := purpose_of_operation hstate hmode hkey
      rw [tenants_of_some hlease] at hstarted
      rw [tenants_of_some rfl]
      show Tidy t r (⟨lease', e'.purpose⟩ :: rest)
      rw [hpurpose]
      exact hstarted.update_ok hpurpose hop
  | @aborted e' q r mode lease lease' code hstart _ _ hmode hlease hop =>
      have hstarted := ensureStarted_tidy hcoherent h hstart
      obtain ⟨hcoherent', _, _, hstate⟩ := hcoherent.ensureStarted hstart
      obtain ⟨_, key, _, _, hkey, _⟩ := hcoherent'.operation hstate
      have hpurpose := purpose_of_operation hstate hmode hkey
      rw [tenants_of_some hlease] at hstarted
      rw [tenants_of_none rfl]
      exact (hstarted.update_error hpurpose rfl hop).close

theorem finish_tidy {request : Request} {mode : OperationMode} (hcoherent : e.Coherent scheme)
    (h : Tidy t p (e.tenants ++ rest)) (hfinishes : request.finishes? = some mode) :
    Tidy t (e.handle request p).2.2 ((e.handle request p).2.1.tenants ++ rest) := by
  have hfinished := finished (e := e) p hfinishes
  generalize (e.handle request p).2 = out at hfinished ⊢
  cases hfinished with
  | wrongMode => exact h
  | notStarted _ hstate hstart => exact start_tidy h hstate (hcoherent.at_rest hstate) hstart
  | @leaseless e' q _ hstart hlease =>
      have hstarted := ensureStarted_tidy hcoherent h hstart
      rw [tenants_of_none hlease] at hstarted
      rw [tenants_of_none (e := { e' with state := .uninitialized }) hlease]
      exact hstarted
  | @ended e' q r lease lease' pending hmode hstart hlease hend =>
      have hstarted := ensureStarted_tidy hcoherent h hstart
      obtain ⟨hcoherent', _, hsame, hstate⟩ := hcoherent.ensureStarted hstart
      obtain ⟨_, key, _, _, hkey, _⟩ := hcoherent'.operation hstate
      have hpurpose :=
        purpose_of_operation hstate (hsame.trans (expectMode_ok hmode)) hkey
      rw [tenants_of_some hlease] at hstarted
      obtain ⟨_, hended⟩ :=
        Ended.tidy hstarted hpurpose (fun _ hc => Concludes.ends hc hfinishes) hend
      rw [tenants_of_none rfl]
      exact hended.close

/-- **Every call of an engine keeps the pool tidy**, for the engine and for all other tenants. -/
theorem handle_tidy (hcoherent : e.Coherent scheme) (request : Request)
    (h : Tidy t p (e.tenants ++ rest)) :
    Tidy t (e.handle request p).2.2 ((e.handle request p).2.1.tenants ++ rest) := by
  cases request with
  | init key mode => exact startWith_tidy hcoherent key mode h
  | update data => exact update_tidy hcoherent data h
  | sign => exact finish_tidy hcoherent h rfl
  | verify signature => exact finish_tidy hcoherent h rfl
  | cancel => exact giveBack_tidy (abandon_tidy hcoherent h).1

theorem close_tidy (h : Tidy t p (e.tenants ++ rest)) : Tidy t (e.close p) rest := by
  unfold close
  split
  · next hlease =>
      rw [tenants_of_none hlease] at h
      exact h
  · next lease hlease =>
      rw [tenants_of_some hlease] at h
      exact h.close

end Cryptoki.Engine
