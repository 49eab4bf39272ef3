import Mathlib.Data.List.Perm.Subperm
import Cryptoki.Proofs.Table
import Cryptoki.Proofs.Token.Software

/-!
# `Cryptoki.Proofs.Pool.Tidy` — pool and token agree on every session

A lease only guesses from the answers of the token whether an operation is under way. Over the token
in memory the guess is right, and a condition says so for all users of a pool at once: each of them
is a tenant, with a lease and, while it runs an operation of its own, what that is for. Acquiring,
using and ending a lease keep the condition for the tenant and for all others, whose slots are not
touched.

The condition also remembers that every answer since some earlier state was timely, so a call that
keeps it has met no code of a call at the wrong time.

## Contents
- `Purpose`, `Tenant`, `Tenant.Sits` — what a user has, and what its slot has to be.
- `Quiet` — all answers since some state were timely.
- `Tidy` — the condition.
- `Tidy.acquire_ok`, `Tidy.operate`, `Tidy.close`, `Tidy.discard` — what keeps it.
-/

namespace Cryptoki

/-! ## Tenants -/

/-- What an operation is for. -/
structure Purpose where
  mode : OperationMode
  mechanism : Mechanism
  key : ObjectHandle

def SoftwareOperation.purpose (o : SoftwareOperation) : Purpose := ⟨o.mode, o.mechanism, o.key⟩

/-- A user of a session, with what its own operation is for, if it runs one. -/
structure Tenant where
  lease : Lease
  purpose : Option Purpose

namespace Tenant

def session (tenant : Tenant) : SessionId := tenant.lease.session

/-- The slot has an operation exactly if the lease says so, and one for the purpose if there is. -/
structure Sits (tenant : Tenant) (op : Option SoftwareOperation) : Prop where
  active : op.isSome = tenant.lease.active
  purpose : ∀ purpose, tenant.purpose = some purpose → ∃ o, op = some o ∧ o.purpose = purpose

/-- An empty slot suits a lease at rest. -/
theorem sits_none {lease : Lease} (h : lease.active = false) : Sits ⟨lease, none⟩ none :=
  ⟨h.symm, fun _ hpurpose => nomatch hpurpose⟩

theorem Sits.eq_none {tenant : Tenant} {op : Option SoftwareOperation} (h : tenant.Sits op)
    (hactive : tenant.lease.active = false) : op = none := by
  have hsome := h.active
  rw [hactive] at hsome
  cases op with
  | none => rfl
  | some o => cases hsome

/-- The lease's guess is right. -/
theorem activeAfter_eq {op op' : Option SoftwareOperation} {primitive : Primitive}
    {result : Except ReturnCode primitive.Result} (h : Software.SlotAfter op primitive result op') :
    op'.isSome = primitive.activeAfter op.isSome result.isOk := by
  cases h with
  | started => rfl
  | notStarted => rfl
  | fed hop => rw [hop]; rfl
  | notFed => rfl
  | ended hends => cases primitive <;> first | rfl | exact hends.elim

end Tenant

/-! ## Timely answers -/

/-- All answers since some state were timely. -/
def Quiet {τ : Type} (t u : Logged τ) : Prop := Logged.Since (fun event => Timely event.result) t u

namespace Quiet

variable {τ : Type} {t u v : Logged τ}

theorem refl (t : Logged τ) : Quiet t t := Logged.Since.refl t

theorem answer [Token τ] {call : Call} {result : Except ReturnCode call.Result} (h : Quiet t u)
    (hanswer : Token.answer call u = (result, v)) (htimely : Timely result) : Quiet t v :=
  Logged.Since.answer h hanswer htimely

end Quiet

/-! ## The condition -/

variable {ops : KeyOperations}

/-- The slot of a session, if it is open. -/
def Pool.slot? (p : Pool (Logged (Software ops))) (session : SessionId) :
    Option (Option SoftwareOperation) :=
  p.token.token.sessions.slot? session

/-- Pool and token agree on every session, idle or of a tenant, and so far the answers were
    timely. -/
structure Tidy (t : Logged (Software ops)) (p : Pool (Logged (Software ops)))
    (tenants : List Tenant) : Prop where
  nodup : (p.idle ++ tenants.map Tenant.session).Nodup
  idle : ∀ session ∈ p.idle, p.slot? session = some none
  sits : ∀ tenant ∈ tenants, ∃ op, p.slot? tenant.session = some op ∧ tenant.Sits op
  counted : p.opened = p.token.token.openSessions
  numbered : ∀ session, p.slot? session ≠ none → session.value ≤ p.token.token.sessions.last
  quiet : Quiet t p.token

namespace Tidy

variable {t : Logged (Software ops)} {p q : Pool (Logged (Software ops))}
  {tenant : Tenant} {tenants tenants' : List Tenant}

theorem perm (h : Tidy t p tenants) (hperm : tenants.Perm tenants') : Tidy t p tenants' :=
  ⟨((hperm.map Tenant.session).append_left p.idle).nodup_iff.mp h.nodup, h.idle,
    fun tenant ht => h.sits tenant (hperm.mem_iff.mpr ht), h.counted, h.numbered, h.quiet⟩

/-- From now on. -/
theorem restart (h : Tidy t p tenants) : Tidy p.token p tenants :=
  ⟨h.nodup, h.idle, h.sits, h.counted, h.numbered, .refl _⟩

/-- What an operation is for may be forgotten. -/
theorem forget (h : Tidy t p (tenant :: tenants)) :
    Tidy t p (⟨tenant.lease, none⟩ :: tenants) := by
  refine ⟨h.nodup, h.idle, ?_, h.counted, h.numbered, h.quiet⟩
  intro other ht
  rcases List.mem_cons.mp ht with rfl | ht
  · obtain ⟨op, hslot, hsits⟩ := h.sits tenant List.mem_cons_self
    exact ⟨op, hslot, hsits.active, fun _ hpurpose => nomatch hpurpose⟩
  · exact h.sits other (List.mem_cons_of_mem tenant ht)

/-- Every session of the pool is open. -/
theorem slot?_ne_none (h : Tidy t p tenants) {session : SessionId}
    (hs : session ∈ p.idle ++ tenants.map Tenant.session) : p.slot? session ≠ none := by
  rcases List.mem_append.mp hs with hs | hs
  · simp [h.idle session hs]
  · obtain ⟨tenant, ht, rfl⟩ := List.mem_map.mp hs
    obtain ⟨op, hslot, _⟩ := h.sits tenant ht
    simp [hslot]

/-- The pool has opened a session for each that is idle and for each tenant. -/
theorem inUse (h : Tidy t p tenants) : ∃ n, p.InUse (n + tenants.length) := by
  have hopen : p.idle ++ tenants.map Tenant.session
      ⊆ p.token.token.sessions.slots.entries.map (·.1) := by
    intro session hs
    exact (Table.contains_iff _ session).mp (Option.isSome_iff_ne_none.mpr (h.slot?_ne_none hs))
  have hle := (List.subperm_of_subset h.nodup hopen).length_le
  have hcounted : p.opened = p.token.token.sessions.slots.entries.length := h.counted
  rw [List.length_append, List.length_map, List.length_map, ← hcounted] at hle
  refine ⟨p.opened - (p.idle.length + tenants.length), ?_⟩
  rw [Pool.InUse]
  omega

/-- The session of a tenant is nobody else's. -/
theorem apart (h : Tidy t p (tenant :: tenants)) :
    tenant.session ∉ p.idle ++ tenants.map Tenant.session
      ∧ (p.idle ++ tenants.map Tenant.session).Nodup :=
  List.nodup_cons.mp (List.perm_middle.nodup_iff.mp h.nodup)

/-! ## Acquiring -/

/-- The token may change in all but its sessions. -/
theorem withToken {u : Logged (Software ops)} (h : Tidy t p tenants)
    (hsessions : u.token.sessions = p.token.token.sessions) (hquiet : Quiet t u) :
    Tidy t { p with token := u } tenants := by
  have hslot : ∀ session, u.token.sessions.slot? session = p.slot? session := by
    intro session
    rw [hsessions]
    rfl
  refine ⟨h.nodup, fun s hs => (hslot s).trans (h.idle s hs), ?_, ?_, ?_, hquiet⟩
  · intro tenant ht
    obtain ⟨op, hop, hsits⟩ := h.sits tenant ht
    exact ⟨op, (hslot _).trans hop, hsits⟩
  · show p.opened = u.token.sessions.size
    rw [hsessions]
    exact h.counted
  · show ∀ s, u.token.sessions.slot? s ≠ none → s.value ≤ u.token.sessions.last
    rw [hsessions]
    exact h.numbered

theorem mechanismInfo (h : Tidy t p tenants) (mechanism : Mechanism) :
    Tidy t (p.call (.mechanismInfo mechanism)).2 tenants := by
  have htimely : Timely mechanism.softwareKeySizes := by
    unfold Mechanism.softwareKeySizes
    split
    · exact .ok _
    · exact .ok _
    · exact .error (by decide)
  have hanswer : Token.answer (.mechanismInfo mechanism) p.token
      = (mechanism.softwareKeySizes, (p.call (.mechanismInfo mechanism)).2.token) := rfl
  exact h.withToken rfl (h.quiet.answer hanswer htimely)

theorem acquire_error {err : EngineError} (h : Tidy t p tenants)
    (hacq : p.acquire = (.error err, q)) : Tidy t q tenants := by
  have hacquired := p.acquired
  rw [hacq] at hacquired
  cases hacquired with
  | full => exact h
  | refused _ _ hopen =>
      obtain ⟨htoken, _⟩ := Logged.answer_eq hopen
      obtain ⟨hsame, rfl⟩ := Software.answer_open_error htoken
      exact h.withToken (congrArg _ hsame) (h.quiet.answer hopen (.error (by decide)))

/-- A session that the token opens is a new one, and at rest. -/
theorem opened {session : SessionId} {u : Logged (Software ops)} (h : Tidy t p tenants)
    (hopen : Token.answer .openSession p.token = (.ok session, u)) :
    Tidy t { p with token := u, opened := p.opened + 1 } (⟨⟨session, false⟩, none⟩ :: tenants) := by
  obtain ⟨htoken, _⟩ := Logged.answer_eq hopen
  obtain ⟨hsession, hsessions⟩ := Software.answer_open_ok htoken
  -- all that are open have numbers up to the last, and the new one comes after it
  have hclosed : p.slot? session = none := by
    cases hslot : p.slot? session with
    | none => rfl
    | some op =>
        exact absurd rfl (Software.ne_of_answer_open htoken (h.numbered session (by simp [hslot])))
  have hslot : ∀ s, u.token.sessions.slot? s = if s = session then some none else p.slot? s :=
    Software.slot?_answer_open htoken
  have hne : ∀ s ∈ p.idle ++ tenants.map Tenant.session, s ≠ session :=
    fun s hs heq => h.slot?_ne_none hs (heq ▸ hclosed)
  refine ⟨?_, ?_, ?_, ?_, ?_, h.quiet.answer hopen (.ok session)⟩
  · refine List.perm_middle.nodup_iff.mpr (List.nodup_cons.mpr ⟨fun hmem => ?_, h.nodup⟩)
    exact hne session hmem rfl
  · intro s hs
    exact ((hslot s).trans (if_neg (hne s (List.mem_append_left _ hs)))).trans (h.idle s hs)
  · intro tenant ht
    rcases List.mem_cons.mp ht with rfl | ht
    · exact ⟨none, (hslot session).trans (if_pos rfl), Tenant.sits_none rfl⟩
    · obtain ⟨op, hop, hsits⟩ := h.sits tenant ht
      have hmem : tenant.session ∈ p.idle ++ tenants.map Tenant.session :=
        List.mem_append_right _ (List.mem_map_of_mem ht)
      exact ⟨op, ((hslot _).trans (if_neg (hne _ hmem))).trans hop, hsits⟩
  · show p.opened + 1 = u.token.sessions.slots.size
    have hsize := Table.size_of_none (t := p.token.token.sessions.slots) hclosed
    have hcounted : p.opened = p.token.token.sessions.slots.size := h.counted
    rw [hsessions, hcounted, hsize]
    rfl
  · intro s hs
    show s.value ≤ u.token.sessions.last
    rw [hsessions]
    by_cases heq : s = session
    · exact Nat.le_of_eq (congrArg SessionId.value (heq.trans hsession))
    · have hopened : p.slot? s ≠ none :=
        fun hnone => hs (((hslot s).trans (if_neg heq)).trans hnone)
      exact Nat.le_succ_of_le (h.numbered s hopened)

/-- A session that is acquired is at rest, and was idle or is new. -/
theorem acquire_ok {lease : Lease} (h : Tidy t p tenants) (hacq : p.acquire = (.ok lease, q)) :
    Tidy t q (⟨lease, none⟩ :: tenants) ∧ lease.active = false := by
  have hacquired := p.acquired
  rw [hacq] at hacquired
  cases hacquired with
  | fresh _ _ hopen => exact ⟨h.opened hopen, rfl⟩
  | @reused session idle hidle =>
      have hnodup := h.nodup
      rw [hidle] at hnodup
      refine ⟨⟨List.perm_middle.nodup_iff.mpr hnodup, ?_, ?_,
        h.counted, h.numbered, h.quiet⟩, rfl⟩
      · intro s hs
        exact h.idle s (hidle ▸ List.mem_cons_of_mem session hs)
      · intro tenant ht
        rcases List.mem_cons.mp ht with rfl | ht
        · exact ⟨none, h.idle session (hidle ▸ List.mem_cons_self), Tenant.sits_none rfl⟩
        · exact h.sits tenant ht

/-! ## Using -/

/-- A primitive is answered by the slot of its tenant, which then has to suit the lease and the
    purpose that the tenant goes on with. The others stay as they are. -/
theorem operate {primitive : Primitive} {result : Except ReturnCode primitive.Result}
    {lease' : Lease} (h : Tidy t p (tenant :: tenants))
    (hop : tenant.lease.operate primitive p = (result, lease', q)) :
    ∃ op op', tenant.Sits op ∧ Software.SlotAfter op primitive result op'
      ∧ op'.isSome = lease'.active
      ∧ (Timely result → Quiet t q.token)
      ∧ ∀ t' purpose, Quiet t' q.token →
          (∀ x, purpose = some x → ∃ o, op' = some o ∧ o.purpose = x) →
          Tidy t' q (⟨lease', purpose⟩ :: tenants) := by
  obtain ⟨rfl, hpool, hanswer⟩ := Lease.operate_cases hop
  obtain ⟨op, hslot, hsits⟩ := h.sits tenant List.mem_cons_self
  obtain ⟨op', hafter, hwrites⟩ := Software.operated hslot primitive
  obtain ⟨htoken, _⟩ := Logged.answer_eq hanswer
  have hoperate : p.token.token.operate tenant.session primitive = (result, q.token.token) := htoken
  rw [hoperate] at hafter hwrites
  have hactive := Tenant.activeAfter_eq hafter
  rw [hsits.active] at hactive
  refine ⟨op, op', hsits, hafter, hactive, h.quiet.answer hanswer, ?_⟩
  intro t' purpose hquiet hfor
  obtain ⟨hnot, _⟩ := h.apart
  have hother : ∀ s ∈ p.idle ++ tenants.map Tenant.session, q.slot? s = p.slot? s :=
    fun s hs => (hwrites.slot? s).trans (if_neg fun heq : s = tenant.session => hnot (heq ▸ hs))
  rw [hpool] at hother ⊢
  refine ⟨h.nodup, ?_, ?_, ?_, ?_, hquiet⟩
  · intro s hs
    exact (hother s (List.mem_append_left _ hs)).trans (h.idle s hs)
  · intro other ht
    rcases List.mem_cons.mp ht with rfl | ht
    · exact ⟨op', (hwrites.slot? _).trans (if_pos rfl), hactive, hfor⟩
    · obtain ⟨op, hop, hsits⟩ := h.sits other (List.mem_cons_of_mem _ ht)
      have hmem : other.session ∈ p.idle ++ tenants.map Tenant.session :=
        List.mem_append_right _ (List.mem_map_of_mem ht)
      exact ⟨op, (hother _ hmem).trans hop, hsits⟩
  · exact h.counted.trans hwrites.size.symm
  · intro s hs
    show s.value ≤ q.token.token.sessions.last
    rw [hwrites.last]
    by_cases heq : s = tenant.session
    · exact h.numbered s (by rw [heq, show p.slot? tenant.session = some op from hslot]; simp)
    · exact h.numbered s fun hnone => hs (((hwrites.slot? s).trans (if_neg heq)).trans hnone)

variable {lease' : Lease} {mode : OperationMode} {mechanism : Mechanism} {key : ObjectHandle}
  {purpose : Purpose} {data : Bytes}

/-- An operation that is started is for what was asked. -/
theorem init_ok (h : Tidy t p (tenant :: tenants))
    (hop : tenant.lease.operate (.init mode mechanism key) p = (.ok (), lease', q)) :
    Tidy t q (⟨lease', some ⟨mode, mechanism, key⟩⟩ :: tenants) := by
  obtain ⟨op, op', _, hafter, _, hquiet, hkept⟩ := h.operate hop
  refine hkept t _ (hquiet (.ok ())) ?_
  intro purpose hpurpose
  cases hafter with
  | started => exact ⟨_, rfl, Option.some.inj hpurpose⟩
  | ended hends => exact hends.elim

/-- A session at rest that starts no operation stays at rest, and is not called at the wrong
    time. -/
theorem init_error {code : ReturnCode} (h : Tidy t p (tenant :: tenants))
    (hrest : tenant.lease.active = false)
    (hop : tenant.lease.operate (.init mode mechanism key) p = (.error code, lease', q)) :
    Tidy t q (⟨lease', none⟩ :: tenants) := by
  obtain ⟨op, op', hsits, hafter, _, hquiet, hkept⟩ := h.operate hop
  have htimely : ¬ code.Misplaced := by
    cases hafter with
    | notStarted hcode => exact hcode (hsits.eq_none hrest)
    | ended hends => exact hends.elim
  exact hkept t none (hquiet (.error htimely)) fun _ hpurpose => nomatch hpurpose

/-- An operation that is fed goes on. -/
theorem update_ok (h : Tidy t p (tenant :: tenants)) (hpurpose : tenant.purpose = some purpose)
    (hop : tenant.lease.operate (.update mode data) p = (.ok (), lease', q)) :
    Tidy t q (⟨lease', some purpose⟩ :: tenants) := by
  obtain ⟨op, op', hsits, hafter, _, hquiet, hkept⟩ := h.operate hop
  obtain ⟨o, hsome, hfor⟩ := hsits.purpose purpose hpurpose
  refine hkept t _ (hquiet (.ok ())) ?_
  intro x hx
  cases hafter with
  | fed hsame =>
      obtain rfl := Option.some.inj (hsame.symm.trans hsome)
      exact ⟨_, rfl, hfor.trans (Option.some.inj hx)⟩
  | ended hends => exact hends.elim

/-- An update in the mode of the operation is not called at the wrong time. -/
theorem update_error {code : ReturnCode} (h : Tidy t p (tenant :: tenants))
    (hpurpose : tenant.purpose = some purpose) (hmode : purpose.mode = mode)
    (hop : tenant.lease.operate (.update mode data) p = (.error code, lease', q)) :
    Tidy t q (⟨lease', none⟩ :: tenants) := by
  obtain ⟨op, op', hsits, hafter, _, hquiet, hkept⟩ := h.operate hop
  obtain ⟨o, hsome, hfor⟩ := hsits.purpose purpose hpurpose
  have homode : o.mode = mode := (congrArg Purpose.mode hfor).trans hmode
  have htimely : ¬ code.Misplaced := by
    cases hafter with
    | notFed hcode => exact hcode o hsome homode
    | ended hends => exact hends.elim
  exact hkept t none (hquiet (.error htimely)) fun _ hpurpose => nomatch hpurpose

/-- The last primitive leaves the session at rest, and is not called at the wrong time if it is in
    the mode of the operation. -/
theorem finish {primitive : Primitive} {result : Except ReturnCode primitive.Result}
    (h : Tidy t p (tenant :: tenants)) (hpurpose : tenant.purpose = some purpose)
    (hends : primitive.Ends purpose.mode)
    (hop : tenant.lease.operate primitive p = (result, lease', q)) :
    Tidy t q (⟨lease', none⟩ :: tenants) ∧ lease'.active = false := by
  obtain ⟨op, op', hsits, hafter, hactive, hquiet, hkept⟩ := h.operate hop
  obtain ⟨o, hsome, hfor⟩ := hsits.purpose purpose hpurpose
  cases hafter with
  | ended hends' hcode =>
      have hmode := hends'.mode_eq hends
      have htimely := hcode o hsome ((congrArg Purpose.mode hfor).trans hmode.symm)
      exact ⟨hkept t none (hquiet htimely) (fun _ hpurpose => nomatch hpurpose), hactive.symm⟩
  | started => exact hends.elim
  | notStarted => exact hends.elim
  | fed => exact hends.elim
  | notFed => exact hends.elim

/-- Any primitive, timely or not, keeps the lease right. -/
theorem drive {primitive : Primitive} {result : Except ReturnCode primitive.Result}
    (h : Tidy t p (tenant :: tenants))
    (hop : tenant.lease.operate primitive p = (result, lease', q)) :
    Tidy q.token q (⟨lease', none⟩ :: tenants) := by
  obtain ⟨_, _, _, _, _, _, hkept⟩ := h.operate hop
  exact hkept q.token none (.refl _) fun _ hpurpose => nomatch hpurpose

/-! ## Ending -/

/-- A session that is closed is open no longer, and its slot is given up. -/
theorem discard (h : Tidy t p (tenant :: tenants)) : Tidy t (tenant.lease.discard p) tenants := by
  obtain ⟨op, hslot, _⟩ := h.sits tenant List.mem_cons_self
  have hopen : p.token.token.sessions.slot? tenant.session = some op := hslot
  have hanswer := Logged.answer_of (Software.answer_close hopen)
  have hslots : ∀ s, ((p.token.token.sessions.close tenant.session).2).slot? s
      = if s = tenant.session then none else p.slot? s := Sessions.slot?_close _ _
  obtain ⟨hnot, hnodup⟩ := h.apart
  have hother : ∀ s ∈ p.idle ++ tenants.map Tenant.session,
      ((p.token.token.sessions.close tenant.session).2).slot? s = p.slot? s :=
    fun s hs => (hslots s).trans (if_neg fun heq : s = tenant.session => hnot (heq ▸ hs))
  -- the session is open, so the token closes it, and writes no other slot
  have hpool : tenant.lease.discard p =
      { p with
        token := ⟨{ p.token.token with
            sessions := (p.token.token.sessions.close tenant.session).2 },
          ⟨.closeSession tenant.session, .ok ()⟩ :: p.token.log⟩,
        opened := p.opened - 1 } := by
    show ({ p with
        token := (Token.answer (.closeSession tenant.session) p.token).2,
        opened := p.opened - 1 } : Pool _) = _
    rw [hanswer]
  rw [hpool]
  refine ⟨hnodup, ?_, ?_, ?_, ?_, h.quiet.answer hanswer (.ok ())⟩
  · intro s hs
    exact (hother s (List.mem_append_left _ hs)).trans (h.idle s hs)
  · intro other ht
    obtain ⟨op, hop, hsits⟩ := h.sits other (List.mem_cons_of_mem _ ht)
    have hmem : other.session ∈ p.idle ++ tenants.map Tenant.session :=
      List.mem_append_right _ (List.mem_map_of_mem ht)
    exact ⟨op, (hother _ hmem).trans hop, hsits⟩
  · have hsize := Sessions.size_close
      (show p.token.token.sessions.slot? tenant.session ≠ none by rw [hopen]; simp)
    have hcounted : p.opened = p.token.token.sessions.size := h.counted
    show p.opened - 1 = ((p.token.token.sessions.close tenant.session).2).size
    omega
  · intro s hs
    have hlast := p.token.token.last_le_answer (.closeSession tenant.session)
    rw [Software.answer_close hopen] at hlast
    refine Nat.le_trans (h.numbered s fun hnone => hs ((hslots s).trans ?_)) hlast
    rw [hnone, ite_self]

/-- A session is given back at rest, or closed. -/
theorem close (h : Tidy t p (tenant :: tenants)) : Tidy t (tenant.lease.close p) tenants := by
  unfold Lease.close
  split
  · exact h.discard
  · next hactive =>
      obtain ⟨op, hslot, hsits⟩ := h.sits tenant List.mem_cons_self
      rw [hsits.eq_none (by simpa using hactive)] at hslot
      refine ⟨List.perm_middle.nodup_iff.mp h.nodup, ?_,
        fun other ht => h.sits other (List.mem_cons_of_mem _ ht), h.counted, h.numbered, h.quiet⟩
      intro s hs
      rcases List.mem_cons.mp hs with rfl | hs
      · exact hslot
      · exact h.idle s hs

end Tidy

end Cryptoki
