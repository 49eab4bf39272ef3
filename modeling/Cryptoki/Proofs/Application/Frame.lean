import Cryptoki.Proofs.Application.Agreement
import Cryptoki.Proofs.Application.Keeps

/-!
# `Cryptoki.Proofs.Application.Frame` — nobody touches the session of an engine

A session is in use by one at a time, and the token keeps one operation for each. So as long as an
engine holds a session, its operation stays as it is, whatever is asked of other engines and of
leases: they work on other sessions, and on those that they acquire meanwhile, which were idle or
are new.

## Contents
- `Pool.Spares`, `keeps_spares` — a session that is out of the pool, and who does not hold it.
- `Application.HeldBeside`, `Application.Agrees.heldBeside` — the sessions of others are not an
  engine's own.
- `Application.Agrees.slot?_step` — a command leaves the sessions of other engines alone.
-/

namespace Cryptoki

variable {ops : KeyOperations} {session : SessionId} {op : Option SoftwareOperation}

/-! ## Sessions that are out of the pool -/

/-- A session is open and has this in its slot, and the pool does not lend it. -/
structure Pool.Spares (session : SessionId) (op : Option SoftwareOperation)
    (p : Pool (Logged (Software ops))) : Prop where
  idle : session ∉ p.idle
  slot : p.slot? session = some op
  numbered : session.value ≤ p.token.token.sessions.last

namespace Pool.Spares

variable {p q : Pool (Logged (Software ops))} {lease lease' : Lease}

/-- Who acquires a lease gets another session. -/
theorem acquire {result : Except EngineError Lease} (h : p.Spares session op)
    (hacq : p.acquire = (result, q)) :
    q.Spares session op ∧ ∀ lease, result.toOption = some lease → lease.session ≠ session := by
  have hacquired := p.acquired
  rw [hacq] at hacquired
  cases hacquired with
  | @reused other idle hidle =>
      have hnot := h.idle
      rw [hidle] at hnot
      refine ⟨⟨fun hmem => hnot (List.mem_cons_of_mem _ hmem), h.slot, h.numbered⟩, ?_⟩
      rintro lease hlease rfl
      obtain rfl := Option.some.inj hlease
      exact hnot List.mem_cons_self
  | full => exact ⟨h, nofun⟩
  | @fresh other u _ _ hopen =>
      obtain ⟨htoken, _⟩ := Logged.answer_eq hopen
      have hne : session ≠ other := Software.ne_of_answer_open htoken h.numbered
      have hlast := p.token.token.last_le_answer .openSession
      rw [htoken] at hlast
      refine ⟨⟨h.idle, ?_, Nat.le_trans h.numbered hlast⟩, ?_⟩
      · exact ((Software.slot?_answer_open htoken session).trans (if_neg hne)).trans h.slot
      · rintro lease hlease rfl
        obtain rfl := Option.some.inj hlease
        exact hne rfl
  | refused _ _ hopen =>
      obtain ⟨htoken, _⟩ := Logged.answer_eq hopen
      obtain ⟨hsame, rfl⟩ := Software.answer_open_error htoken
      refine ⟨⟨h.idle, ?_, ?_⟩, nofun⟩
      · rw [Pool.slot?, hsame]
        exact h.slot
      · rw [hsame]
        exact h.numbered

theorem operate {primitive : Primitive} {result : Except ReturnCode primitive.Result}
    (h : p.Spares session op) (hne : lease.session ≠ session)
    (hop : lease.operate primitive p = (result, lease', q)) : q.Spares session op := by
  obtain ⟨_, hpool, hanswer⟩ := Lease.operate_cases hop
  obtain ⟨htoken, _⟩ := Logged.answer_eq hanswer
  have hoperate : p.token.token.operate lease.session primitive = (result, q.token.token) := htoken
  have hslot := Software.slot?_operate (t := p.token.token) hne.symm primitive
  have hlast : (p.token.token.operate lease.session primitive).2.sessions.last
      = p.token.token.sessions.last := Software.operate_last primitive
  rw [hoperate] at hslot hlast
  refine ⟨?_, hslot.trans h.slot, hlast.symm ▸ h.numbered⟩
  rw [hpool]
  exact h.idle

theorem discard (h : p.Spares session op) (hne : lease.session ≠ session) :
    (lease.discard p).Spares session op := by
  refine ⟨h.idle, ?_, ?_⟩
  · exact ((Sessions.slot?_close p.token.token.sessions lease.session session).trans
      (if_neg hne.symm)).trans h.slot
  · exact Nat.le_trans h.numbered (p.token.token.last_le_answer (.closeSession lease.session))

theorem close (h : p.Spares session op) (hne : lease.session ≠ session) :
    (lease.close p).Spares session op := by
  unfold Lease.close
  split
  · exact h.discard hne
  · refine ⟨?_, h.slot, h.numbered⟩
    intro hmem
    rcases List.mem_cons.mp hmem with heq | hmem
    · exact hne heq.symm
    · exact h.idle hmem

end Pool.Spares

/-- **Who holds another session leaves this one alone**, and gets no hold of it. -/
theorem keeps_spares (session : SessionId) (op : Option SoftwareOperation) :
    Keeps fun l (p : Pool (Logged (Software ops))) =>
      p.Spares session op ∧ ∀ lease, l = some lease → lease.session ≠ session where
  acquire h hacq := h.1.acquire hacq
  operate := by
    intro lease lease' p q primitive result h hop
    obtain ⟨rfl, _, _⟩ := Lease.operate_cases hop
    have hne := h.2 lease rfl
    refine ⟨h.1.operate hne hop, ?_⟩
    intro held hheld
    obtain rfl := Option.some.inj hheld
    exact hne
  close h := ⟨h.1.close (h.2 _ rfl), nofun⟩
  discard h := ⟨h.1.discard (h.2 _ rfl), nofun⟩
  asked _ h := ⟨⟨h.1.idle, h.1.slot, h.1.numbered⟩, h.2⟩

/-! ## Commands -/

namespace Application

variable {t : Logged (Software ops)} {a : Application (Logged (Software ops))} {name : String}
  {e : Engine} {lease : Lease} {c : Command}

/-- A session is in the hands of another engine, or of a lease. -/
def HeldBeside (a : Application (Logged (Software ops))) (name : String) (session : SessionId) :
    Prop :=
  (∃ other e lease, other ≠ name ∧ a.engines.get? other = some e ∧ e.lease = some lease
      ∧ lease.session = session)
    ∨ ∃ other lease, a.leases.get? other = some lease ∧ lease.session = session

/-- Who holds it is a tenant beside the engine. -/
theorem HeldBeside.mem (h : a.HeldBeside name session) :
    session ∈ (tenantsOf (a.engines.erase name) a.leases).map Tenant.session := by
  rcases h with ⟨other, e, lease, hne, hget, hlease, rfl⟩ | ⟨other, lease, hget, rfl⟩
  · have hmem : e ∈ (a.engines.erase name).values :=
      Table.mem_values.mpr ⟨other, (Table.get?_erase_of_ne hne _).trans hget⟩
    have htenant : ⟨lease, e.purpose⟩ ∈ e.tenants := by
      rw [Engine.tenants_of_some hlease]
      exact List.mem_singleton_self _
    exact List.mem_map.mpr ⟨⟨lease, e.purpose⟩,
      List.mem_append_left _ (List.mem_flatMap.mpr ⟨e, hmem, htenant⟩), rfl⟩
  · exact List.mem_map.mpr ⟨⟨lease, none⟩,
      List.mem_append_right _ (List.mem_map_of_mem (Table.mem_values.mpr ⟨other, hget⟩)), rfl⟩

/-- So the session is out of the pool, and not the engine's own. -/
theorem Agrees.heldBeside (h : Agrees t a) (hget : a.engines.get? name = some e)
    (hheld : a.HeldBeside name session) :
    session ∉ a.pool.idle ∧ ∀ lease, e.lease = some lease → lease.session ≠ session := by
  have htidy := h.tidy.perm (tenantsOf_perm_engine hget)
  have hmem := hheld.mem
  constructor
  · intro hidle
    have hdisjoint := (List.nodup_append.mp htidy.nodup).2.2
    refine hdisjoint session hidle session ?_ rfl
    rw [List.map_append]
    exact List.mem_append_right _ hmem
  · rintro lease hlease rfl
    rw [Engine.tenants_of_some hlease] at htidy
    exact htidy.apart.1 (List.mem_append_right _ hmem)

/-- The session of an engine is open, and has what the engine says in its slot. -/
theorem Agrees.sits (h : Agrees t a) (hget : a.engines.get? name = some e)
    (hlease : e.lease = some lease) :
    ∃ op, a.pool.slot? lease.session = some op ∧ Tenant.Sits ⟨lease, e.purpose⟩ op := by
  have htidy := h.tidy.perm (tenantsOf_perm_engine hget)
  rw [Engine.tenants_of_some hlease] at htidy
  exact htidy.sits _ List.mem_cons_self

/-- The session of an engine is out of the pool, and no other engine or lease is on it. -/
theorem Agrees.spares (h : Agrees t a) (hget : a.engines.get? name = some e)
    (hlease : e.lease = some lease) (hslot : a.pool.slot? lease.session = some op) :
    a.pool.Spares lease.session op
      ∧ (∀ name' e' lease', name' ≠ name → a.engines.get? name' = some e' →
          e'.lease = some lease' → lease'.session ≠ lease.session)
      ∧ ∀ name' lease', a.leases.get? name' = some lease' → lease'.session ≠ lease.session := by
  have htidy := h.tidy.perm (tenantsOf_perm_engine hget)
  rw [Engine.tenants_of_some hlease] at htidy
  have hidle : lease.session ∉ a.pool.idle :=
    fun hmem => htidy.apart.1 (List.mem_append_left _ hmem)
  refine ⟨⟨hidle, hslot, h.tidy.numbered _ (by simp [hslot])⟩, ?_, ?_⟩
  · intro name' e' lease' hne hget' hlease'
    have hheld : a.HeldBeside name lease'.session :=
      .inl ⟨name', e', lease', hne, hget', hlease', rfl⟩
    exact ((h.heldBeside hget hheld).2 lease hlease).symm
  · intro name' lease' hget'
    have hheld : a.HeldBeside name lease'.session := .inr ⟨name', lease', hget', rfl⟩
    exact ((h.heldBeside hget hheld).2 lease hlease).symm

/-- **A command leaves the session of an engine alone** that it is not about. -/
theorem Agrees.slot?_step (h : Agrees t a) (hget : a.engines.get? name = some e)
    (hlease : e.lease = some lease) (hslot : a.pool.slot? lease.session = some op)
    (hother : c.engine? ≠ some name) (hpool : c.ThroughPool) :
    (a.step c).2.pool.slot? lease.session = some op := by
  obtain ⟨hspares, hengines, hleases⟩ := h.spares hget hlease hslot
  have hafter : (a.step c).2.pool.Spares lease.session op := by
    refine step_keeps (L := fun session => session ≠ lease.session)
      (keeps_spares lease.session op) hspares ?_ hleases ?_
    · intro name' e' lease' hname hget' hlease'
      refine hengines name' e' lease' ?_ hget' hlease'
      rintro rfl
      exact hother hname
    · rintro call rfl
      obtain ⟨mechanism, rfl⟩ := hpool
      exact ⟨hspares.idle, hspares.slot, hspares.numbered⟩
  exact hafter.slot

/-- It leaves the engine alone, too. -/
theorem engine_step (a : Application (Logged (Software ops))) (hother : c.engine? ≠ some name) :
    (a.step c).2.engines.get? name = a.engines.get? name := by
  have hne : ∀ {name'}, c.engine? = some name' → name ≠ name' := by
    rintro name' hname rfl
    exact hother hname
  cases c with
  | newEngine name' algorithm mechanism =>
      simp only [step]
      split
      · rfl
      · exact Table.get?_insert_of_ne (hne rfl) ..
  | engine name' request =>
      simp only [step]
      split
      · rfl
      · exact Table.get?_insert_of_ne (hne rfl) ..
  | dropEngine name' =>
      simp only [step]
      split
      · rfl
      · exact Table.get?_erase_of_ne (hne rfl) ..
  -- the other commands leave the engines alone
  | acquire name' => simp only [step]; split <;> rfl
  | lease name' primitive => simp only [step]; split <;> rfl
  | closeLease name' => simp only [step]; split <;> rfl
  | discardLease name' => simp only [step]; split <;> rfl
  | token call => rfl

end Application

end Cryptoki
