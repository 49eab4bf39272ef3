import Cryptoki.Proofs.Engine.Serving

/-!
# `Cryptoki.Proofs.Engine.Alone` — an engine among others, and the same engine alone

An engine that shares its pool gets sessions that others have used before it, under numbers that
depend on what the others did, and it may get none. Alone in a pool that is set up the same way it
gets one whenever it gets one among others. Beyond that it cannot tell the difference: a session that
is acquired is at rest, from then on nobody else uses it, and the token's answers depend on the keys
and on the slot of the session, but not on its number.

## Contents
- `Software.operate_alike` — slots with the same in them.
- `Pool.basis`, `Pool.Basis.HasRoom` — how a pool is set up, and whether it has room at all.
- `Pool.Shared`, `Pool.Alone` — a pool with others in it, and without.
- `Pool.Alone.acquire_ok` — who is alone gets a session if there is room for one.
- `Mirror.aside` — the two pools are alike.
-/

namespace Cryptoki

variable {ops : KeyOperations}

/-! ## Slots with the same in them -/

namespace Software

variable {t u : Software ops} {session other : SessionId} {op : Option SoftwareOperation}

theorem complete_alike {α : Type} (hkeys : u.keys = t.keys)
    (ht : t.sessions.slot? session = some op) (hu : u.sessions.slot? other = some op)
    (mode : OperationMode) (data : Option Bytes)
    (keyOperation : Mechanism → Bytes → StoredKey → Except ReturnCode α) :
    (u.complete other mode data keyOperation).1 = (t.complete session mode data keyOperation).1
      ∧ (u.complete other mode data keyOperation).2.sessions.slot? other
        = (t.complete session mode data keyOperation).2.sessions.slot? session := by
  simp only [complete, ht, hu, hkeys, slot?_setOperation, and_self]

/-- **A primitive does the same to slots with the same in them**, if the keys are the same. -/
theorem operate_alike (hkeys : u.keys = t.keys) (ht : t.sessions.slot? session = some op)
    (hu : u.sessions.slot? other = some op) (primitive : Primitive) :
    (u.operate other primitive).1 = (t.operate session primitive).1
      ∧ (u.operate other primitive).2.sessions.slot? other
        = (t.operate session primitive).2.sessions.slot? session := by
  cases primitive with
  | init mode mechanism key =>
      have hstart : u.startOperation other mode mechanism key
          = t.startOperation session mode mechanism key := by
        simp only [startOperation, ht, hu, hkeys]
      simp only [operate, Software.init, hstart]
      split
      · exact ⟨rfl, (slot?_setOperation ..).trans (slot?_setOperation ..).symm⟩
      · exact ⟨rfl, hu.trans ht.symm⟩
  | update mode data =>
      simp only [operate, Software.update, ht, hu]
      split
      · exact ⟨rfl, (slot?_setOperation ..).trans (slot?_setOperation ..).symm⟩
      · exact ⟨rfl, (slot?_setOperation ..).trans (slot?_setOperation ..).symm⟩
  | signFinal expectedLength => exact complete_alike hkeys ht hu ..
  | sign data => exact complete_alike hkeys ht hu ..
  | verifyFinal signature => exact complete_alike hkeys ht hu ..
  | verify data signature => exact complete_alike hkeys ht hu ..

end Software

/-! ## Pools that are set up in the same way -/

/-- How a pool is set up, with the keys and the settings of its token. -/
structure Pool.Basis where
  config : PoolConfig
  token : Software.Settings

/-- There is room for one session at least. -/
structure Pool.Basis.HasRoom (b : Pool.Basis) : Prop where
  bound : 0 < b.config.maxSessions
  limit : b.token.limit ≠ some 0

namespace Pool

variable {p q : Pool (Logged (Software ops))} {b : Basis} {l : Option Lease}

def basis (p : Pool (Logged (Software ops))) : Basis := ⟨p.config, p.token.token.settings⟩

theorem basis_of_reached (hconfig : q.config = p.config) (h : Token.Reached p.token q.token) :
    q.basis = p.basis := by
  have hsettings : q.token.token.settings = p.token.token.settings := by
    refine h.keeps (P := fun t => t.token.settings = p.token.token.settings) ?_ rfl
    intro call t ht
    exact (Software.answer_settings call t.token).trans ht
  simp only [basis, hconfig, hsettings]

theorem basis_acquire {result : Except EngineError Lease} (h : p.acquire = (result, q)) :
    q.basis = p.basis := by
  refine basis_of_reached ?_ (acquire_reached h)
  have hacquired := p.acquired
  rw [h] at hacquired
  cases hacquired <;> rfl

/-- The pool is set up in this way, and if it has a session, it has room for one. -/
def Founded (b : Basis) (p : Pool (Logged (Software ops))) : Prop :=
  p.basis = b ∧ (p.opened ≠ 0 → b.HasRoom)

theorem Founded.discard (h : p.Founded b) (lease : Lease) : (lease.discard p).Founded b := by
  have hbasis : (lease.discard p).basis = p.basis :=
    basis_of_reached rfl (lease.discard_reached p)
  refine ⟨hbasis.trans h.1, ?_⟩
  intro hne
  apply h.2
  rintro hzero
  apply hne
  show p.opened - 1 = 0
  rw [hzero]

theorem keeps_founded (b : Basis) :
    Keeps fun _ (p : Pool (Logged (Software ops))) => p.Founded b where
  acquire := by
    intro p q result h hacq
    obtain ⟨hbasis, hroom⟩ := h
    refine ⟨(basis_acquire hacq).trans hbasis, ?_⟩
    have hacquired := p.acquired
    rw [hacq] at hacquired
    cases hacquired with
    | reused => exact hroom
    | full => exact hroom
    | refused => exact hroom
    | @fresh session u _ hbound hopen =>
        -- the session that was just opened is one that there was room for
        intro _
        subst hbasis
        refine ⟨Nat.zero_lt_of_lt hbound, ?_⟩
        intro hlimit
        obtain ⟨htoken, _⟩ := Logged.answer_eq hopen
        have hok := (Software.answer_open_isOk p.token.token).mp (by rw [htoken]; rfl) 0 hlimit
        exact Nat.not_lt_zero _ hok
  operate := by
    intro lease lease' p q primitive result h hop
    obtain ⟨_, hpool, _⟩ := Lease.operate_cases hop
    have hconfig : q.config = p.config := by rw [hpool]
    have hopened : q.opened = p.opened := by rw [hpool]
    exact ⟨(basis_of_reached hconfig (Lease.operate_reached hop)).trans h.1, hopened ▸ h.2⟩
  close := by
    intro lease p h
    unfold Lease.close
    split
    · exact h.discard lease
    · exact h
  discard h := h.discard _
  asked _ h := h

/-! ## Pools with others in them, and without -/

/-- The pool is tidy for the holder of this lease, if there is one, and for these others. -/
def TidyFor (others : List Tenant) (l : Option Lease) (p : Pool (Logged (Software ops))) : Prop :=
  ∃ t, Tidy t p (l.toList.map (⟨·, none⟩) ++ others)

theorem keeps_tidyFor (others : List Tenant) :
    Keeps fun l (p : Pool (Logged (Software ops))) => p.TidyFor others l where
  acquire := by
    rintro p q (err | lease) ⟨t, h⟩ hacq
    · exact ⟨t, h.acquire_error hacq⟩
    · exact ⟨t, (h.acquire_ok hacq).1⟩
  operate := fun ⟨_, h⟩ hop => ⟨_, h.drive hop⟩
  close := fun ⟨t, h⟩ => ⟨t, h.close⟩
  discard := fun ⟨t, h⟩ => ⟨t, h.discard⟩
  asked := fun mechanism ⟨t, h⟩ => ⟨t, h.mechanismInfo mechanism⟩

/-- Who holds the lease, if there is one, has others beside it in the pool. -/
def Shared (b : Basis) (l : Option Lease) (p : Pool (Logged (Software ops))) : Prop :=
  (∃ others, p.TidyFor others l) ∧ p.Founded b

/-- Who holds the lease, if there is one, has the pool for itself. -/
def Alone (b : Basis) (l : Option Lease) (p : Pool (Logged (Software ops))) : Prop :=
  p.TidyFor [] l ∧ p.InUse (0 + l.toList.length) ∧ p.Founded b

theorem keeps_shared (b : Basis) :
    Keeps fun l (p : Pool (Logged (Software ops))) => p.Shared b l :=
  (Keeps.forSome keeps_tidyFor).and (keeps_founded b)

theorem keeps_alone (b : Basis) : Keeps fun l (p : Pool (Logged (Software ops))) => p.Alone b l :=
  (keeps_tidyFor []).and ((keeps_inUse 0).and (keeps_founded b))

/-- A lease that is held is on a session that is open. -/
theorem TidyFor.slot? {others : List Tenant} {lease : Lease} (h : p.TidyFor others (some lease)) :
    ∃ op, p.slot? lease.session = some op ∧ Tenant.Sits ⟨lease, none⟩ op := by
  obtain ⟨t, htidy⟩ := h
  exact htidy.sits ⟨lease, none⟩ List.mem_cons_self

/-- A session that was just acquired has nothing in it. -/
theorem TidyFor.acquired {others : List Tenant} {lease : Lease} (h : p.TidyFor others none)
    (hacq : p.acquire = (.ok lease, q)) :
    lease.active = false ∧ q.slot? lease.session = some none := by
  obtain ⟨t, htidy⟩ := h
  obtain ⟨htidy', hrest⟩ := htidy.acquire_ok hacq
  obtain ⟨op, hslot, hsits⟩ := htidy'.sits ⟨lease, none⟩ List.mem_cons_self
  rw [hsits.eq_none hrest] at hslot
  exact ⟨hrest, hslot⟩

/-- Who gets a session among others has found room for one. -/
theorem Shared.hasRoom {lease : Lease} (h : p.Shared b none) (hacq : p.acquire = (.ok lease, q)) :
    b.HasRoom := by
  obtain ⟨⟨others, htidy⟩, _, hroom⟩ := (keeps_shared b).acquire h hacq
  apply hroom
  obtain ⟨op, hslot, _⟩ := htidy.slot?
  obtain ⟨t, htidy⟩ := htidy
  have hopen := Table.size_of_some (t := q.token.token.sessions.slots) hslot
  rw [htidy.counted]
  show q.token.token.sessions.slots.size ≠ 0
  rw [hopen]
  exact Nat.succ_ne_zero _

/-- **Who is alone gets a session**, if there is room for one. -/
theorem Alone.acquire_ok (h : p.Alone b none) (hroom : b.HasRoom) :
    ∃ lease q, p.acquire = (.ok lease, q) := by
  obtain ⟨⟨t, htidy⟩, hinUse, rfl, _⟩ := h
  cases hidle : p.idle with
  | cons session idle => exact ⟨_, _, acquire_of_idle hidle⟩
  | nil =>
      -- no session is idle and none is in use, so none is open
      have hopened : p.opened = 0 := by
        rw [InUse, hidle] at hinUse
        exact hinUse
      have hfew : p.opened < p.config.maxSessions := hopened ▸ hroom.bound
      have hok : (Token.answer .openSession p.token.token).1.isOk = true := by
        refine (Software.answer_open_isOk _).mpr ?_
        intro limit hlimit
        rw [← htidy.counted, hopened]
        exact Nat.pos_of_ne_zero fun hzero => hroom.limit (hzero ▸ hlimit)
      rcases hopen : Token.answer .openSession p.token.token with ⟨code | session, u⟩
      · rw [hopen] at hok
        cases hok
      · exact ⟨_, _, acquire_of_room hidle hfew (Logged.answer_of hopen)⟩

/-! ## Storing keys -/

/-- The pool after a key pair was stored on its token. -/
def withPair (p : Pool (Logged (Software ops))) (secret : KeySecret) :
    Pool (Logged (Software ops)) :=
  { p with token := ⟨(p.token.token.addPair secret).2, p.token.log⟩ }

variable (secret : KeySecret)

theorem sessions_withPair (p : Pool (Logged (Software ops))) :
    (p.withPair secret).token.token.sessions = p.token.token.sessions := by cases secret <;> rfl

theorem basis_withPair (h : q.basis = p.basis) :
    (q.withPair secret).basis = (p.withPair secret).basis := by
  obtain ⟨hconfig, hsettings⟩ := Basis.mk.inj h
  exact congrArg₂ Basis.mk hconfig (Software.settings_addPair hsettings secret)

variable {secret}

theorem TidyFor.withPair {others : List Tenant} (h : p.TidyFor others l) :
    (p.withPair secret).TidyFor others l := by
  obtain ⟨t, htidy⟩ := h
  exact ⟨t, htidy.withToken (sessions_withPair secret p) htidy.quiet⟩

theorem Founded.withPair (h : p.Founded b) :
    (p.withPair secret).Founded (p.withPair secret).basis := by
  obtain ⟨rfl, hroom⟩ := h
  refine ⟨rfl, fun hopened => ⟨(hroom hopened).bound, ?_⟩⟩
  have hlimit : (p.withPair secret).token.token.sessions.limit ≠ some 0 := by
    rw [sessions_withPair]
    exact (hroom hopened).limit
  exact hlimit

theorem Shared.withPair (h : p.Shared b l) :
    (p.withPair secret).Shared (p.withPair secret).basis l := by
  obtain ⟨⟨others, htidy⟩, hfounded⟩ := h
  exact ⟨⟨others, htidy.withPair⟩, hfounded.withPair⟩

theorem Alone.withPair (h : p.Alone b l) :
    (p.withPair secret).Alone (p.withPair secret).basis l := by
  obtain ⟨htidy, hinUse, hfounded⟩ := h
  exact ⟨htidy.withPair, hinUse, hfounded.withPair⟩

end Pool

/-! ## One like the other -/

/-- **A pool with others in it is like one without**, for who does not hold a session of them, and
    for who holds one of each with the same in it. Only for want of sessions may a call fail among
    others that would not fail alone. -/
def Mirror.aside : Mirror (Logged (Software ops)) (Logged (Software ops)) where
  idle p p' := ∃ b, p.Shared b none ∧ p'.Alone b none
  held lease p lease' p' :=
    (∃ b, p.Shared b (some lease) ∧ p'.Alone b (some lease')) ∧ lease'.active = lease.active
      ∧ p'.slot? lease'.session = p.slot? lease.session
  Excused err := err.mayPass = true
  active h := h.2.1
  ends := by
    rintro lease p lease' p' ⟨⟨b, ⟨_, hbasis, _⟩, _, _, hbasis', _⟩, _⟩
    exact congrArg (fun b : Pool.Basis => b.config.explicitCancel && b.token.sessionObjects)
      (hbasis'.trans hbasis.symm)
  acquire := by
    rintro p p' ⟨b, hshared, halone⟩
    rcases hacq : p.acquire with ⟨err | lease, q⟩
    · obtain ⟨shortage, rfl⟩ := Engine.acquire_noSession hacq
      exact .excused rfl
    · obtain ⟨lease', q', hacq'⟩ := halone.acquire_ok (hshared.hasRoom hacq)
      obtain ⟨others, htidy⟩ := hshared.1
      obtain ⟨hrest, hslot⟩ := htidy.acquired hacq
      obtain ⟨hrest', hslot'⟩ := halone.1.acquired hacq'
      rw [hacq']
      exact .obtained ⟨⟨b, (Pool.keeps_shared b).acquire hshared hacq,
        (Pool.keeps_alone b).acquire halone hacq'⟩, hrest'.trans hrest.symm,
        hslot'.trans hslot.symm⟩
  operate := by
    rintro lease p lease' p' primitive ⟨⟨b, hshared, halone⟩, hactive, hslot⟩
    obtain ⟨others, htidy⟩ := hshared.1
    obtain ⟨op, hop, _⟩ := htidy.slot?
    have hkeys : p'.token.token.keys = p.token.token.keys :=
      congrArg (fun b : Pool.Basis => b.token.keys) (halone.2.2.1.trans hshared.2.1.symm)
    obtain ⟨hresult, hafter⟩ := Software.operate_alike hkeys hop (hslot.trans hop) primitive
    have hresult' : (lease'.operate primitive p').1 = (lease.operate primitive p).1 := hresult
    refine ⟨hresult, ⟨b, (Pool.keeps_shared b).operate hshared rfl,
      (Pool.keeps_alone b).operate halone rfl⟩, ?_, hafter⟩
    show primitive.activeAfter lease'.active (lease'.operate primitive p').1.isOk
      = primitive.activeAfter lease.active (lease.operate primitive p).1.isOk
    rw [hactive, hresult']
  close := by
    rintro lease p lease' p' ⟨⟨b, hshared, halone⟩, _⟩
    exact ⟨b, (Pool.keeps_shared b).close hshared, (Pool.keeps_alone b).close halone⟩
  discard := by
    rintro lease p lease' p' ⟨⟨b, hshared, halone⟩, _⟩
    exact ⟨b, (Pool.keeps_shared b).discard hshared, (Pool.keeps_alone b).discard halone⟩
  asked := by
    rintro p p' mechanism ⟨b, hshared, halone⟩
    exact ⟨rfl, b, (Pool.keeps_shared b).asked mechanism hshared,
      (Pool.keeps_alone b).asked mechanism halone⟩
  askedHeld := by
    rintro lease p lease' p' mechanism ⟨⟨b, hshared, halone⟩, hlike⟩
    exact ⟨rfl, ⟨b, (Pool.keeps_shared b).asked mechanism hshared,
      (Pool.keeps_alone b).asked mechanism halone⟩, hlike⟩

/-- Pools that are alike still are after the same key pair was stored on both tokens. -/
theorem Mirror.Leases.withPair {l l' : Option Lease} {p p' : Pool (Logged (Software ops))}
    (h : aside.Leases l p l' p') (secret : KeySecret) :
    aside.Leases l (p.withPair secret) l' (p'.withPair secret) := by
  have hboth : ∀ {l l' : Option Lease}, (∃ b, p.Shared b l ∧ p'.Alone b l') →
      ∃ b, (p.withPair secret).Shared b l ∧ (p'.withPair secret).Alone b l' := by
    rintro l l' ⟨b, hshared, halone⟩
    have hbasis := Pool.basis_withPair secret (halone.2.2.1.trans hshared.2.1.symm)
    exact ⟨_, hshared.withPair, hbasis ▸ halone.withPair⟩
  cases h with
  | none hidle => exact .none (hboth hidle)
  | some hheld =>
      obtain ⟨hheld, hactive, hslot⟩ := hheld
      refine .some ⟨hboth hheld, hactive, ?_⟩
      show (p'.withPair secret).token.token.sessions.slot? _
        = (p.withPair secret).token.token.sessions.slot? _
      rw [Pool.sessions_withPair, Pool.sessions_withPair]
      exact hslot

end Cryptoki
