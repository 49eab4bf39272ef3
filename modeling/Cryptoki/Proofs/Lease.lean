import Cryptoki.Lease

/-!
# `Cryptoki.Proofs.Lease` — what comes of acquiring, using and ending a lease

Each of these is said once, case by case and down to the call on the token, for every token. What
holds of pools and engines is read off these cases.

## Contents
- `Pool.Acquired`, `Pool.acquired` — the four ways that acquiring a lease can go.
- `Primitive.Ends` — the primitives that end an operation.
- `Lease.operate_cases` — a primitive touches the lease's flag and the token only.
- `Lease.close_idle` — after the last one, the session is idle.
- `Pool.InUse` — the count of sessions in use, and how it moves.
-/

namespace Cryptoki

variable {τ : Type} [Token τ]

/-! ## Acquiring -/

/-- The ways that acquiring a lease can go. -/
inductive Pool.Acquired (p : Pool τ) : Except EngineError Lease × Pool τ → Prop
  /-- An idle session is used again. -/
  | reused {session : SessionId} {idle : List SessionId} (hidle : p.idle = session :: idle) :
      Acquired p (.ok ⟨session, false⟩, { p with idle })
  /-- There is no idle session, and no room for another. -/
  | full (hidle : p.idle = []) (hfull : p.config.maxSessions ≤ p.opened) :
      Acquired p (.error (.noSession (.allInUse p.config.maxSessions)), p)
  /-- The token opens another session. -/
  | fresh {session : SessionId} {t : τ} (hidle : p.idle = [])
      (hroom : p.opened < p.config.maxSessions)
      (hopen : Token.answer .openSession p.token = (.ok session, t)) :
      Acquired p (.ok ⟨session, false⟩, { p with token := t, opened := p.opened + 1 })
  /-- The token opens none; the slot is given up again. -/
  | refused {code : ReturnCode} {t : τ} (hidle : p.idle = [])
      (hroom : p.opened < p.config.maxSessions)
      (hopen : Token.answer .openSession p.token = (.error code, t)) :
      Acquired p (.error (Pool.openFailure code), { p with token := t })

theorem Pool.acquire_of_idle {p : Pool τ} {session : SessionId} {idle : List SessionId}
    (hidle : p.idle = session :: idle) :
    p.acquire = (.ok ⟨session, false⟩, { p with idle }) := by
  simp only [Pool.acquire, Pool.obtain, Pool.takeIdle?, hidle]
  rfl

theorem Pool.acquire_of_full {p : Pool τ} (hidle : p.idle = [])
    (hfull : p.config.maxSessions ≤ p.opened) :
    p.acquire = (.error (.noSession (.allInUse p.config.maxSessions)), p) := by
  simp only [Pool.acquire, Pool.obtain, Pool.takeIdle?, hidle, Pool.reserve?,
    if_neg (Nat.not_lt.mpr hfull)]
  rfl

theorem Pool.acquire_of_room {p : Pool τ} {result : Except ReturnCode SessionId} {t : τ}
    (hidle : p.idle = []) (hroom : p.opened < p.config.maxSessions)
    (hopen : Token.answer .openSession p.token = (result, t)) :
    p.acquire =
      match result with
      | .ok session => (.ok ⟨session, false⟩, { p with token := t, opened := p.opened + 1 })
      | .error code => (.error (Pool.openFailure code), { p with token := t }) := by
  simp only [Pool.acquire, Pool.obtain, Pool.takeIdle?, hidle, Pool.reserve?, if_pos hroom,
    Pool.openSession, Pool.call, hopen]
  cases result with
  | ok session => rfl
  | error code => rfl

theorem Pool.acquired (p : Pool τ) : p.Acquired p.acquire := by
  cases hidle : p.idle with
  | cons session idle =>
      rw [acquire_of_idle hidle]
      exact .reused hidle
  | nil =>
      by_cases hroom : p.opened < p.config.maxSessions
      · cases hopen : Token.answer .openSession p.token with
        | mk result t =>
            rw [acquire_of_room hidle hroom hopen]
            cases result with
            | ok session => exact .fresh hidle hroom hopen
            | error code => exact .refused hidle hroom hopen
      · have hfull := Nat.le_of_not_lt hroom
        rw [acquire_of_full hidle hfull]
        exact .full hidle hfull

/-- Why there is no session. -/
theorem Pool.acquire_error {p q : Pool τ} {err : EngineError} (h : p.acquire = (.error err, q)) :
    (∃ shortage, err = .noSession shortage) ∨ ∃ code, err = .tokenFailure .openSession code := by
  have hacquired := p.acquired
  rw [h] at hacquired
  cases hacquired with
  | full => exact .inl ⟨_, rfl⟩
  | refused =>
      unfold Pool.openFailure
      split
      · exact .inl ⟨_, rfl⟩
      · exact .inr ⟨_, rfl⟩

/-! ## Using -/

/-- The primitives that end an operation in some mode. -/
def Primitive.Ends (mode : OperationMode) : Primitive → Prop
  | .signFinal _ | .sign _ => mode = .sign
  | .verifyFinal _ | .verify .. => mode = .verify
  | .init .. | .update .. => False

theorem Primitive.Ends.mode_eq {a b : OperationMode} {primitive : Primitive}
    (ha : primitive.Ends a) (hb : primitive.Ends b) : a = b := by
  cases primitive with
  | init => exact ha.elim
  | update => exact ha.elim
  | signFinal => exact Eq.trans ha (Eq.symm hb)
  | sign => exact Eq.trans ha (Eq.symm hb)
  | verifyFinal => exact Eq.trans ha (Eq.symm hb)
  | verify => exact Eq.trans ha (Eq.symm hb)

/-- Whatever comes of the last primitive, the session is at rest. -/
theorem Primitive.Ends.activeAfter {mode : OperationMode} {primitive : Primitive}
    (h : primitive.Ends mode) (active success : Bool) :
    primitive.activeAfter active success = false := by
  cases primitive with
  | init => exact h.elim
  | update => exact h.elim
  | signFinal => rfl
  | sign => rfl
  | verifyFinal => rfl
  | verify => rfl

/-- A primitive touches the lease's flag and the token only. -/
theorem Lease.operate_cases {lease lease' : Lease} {primitive : Primitive} {p q : Pool τ}
    {result : Except ReturnCode primitive.Result}
    (h : lease.operate primitive p = (result, lease', q)) :
    lease' = ⟨lease.session, primitive.activeAfter lease.active result.isOk⟩
      ∧ q = { p with token := q.token }
      ∧ Token.answer (.operate lease.session primitive) p.token = (result, q.token) := by
  simp only [Lease.operate, Pool.call, Prod.mk.injEq] at h
  obtain ⟨rfl, rfl, rfl⟩ := h
  exact ⟨rfl, rfl, rfl⟩

/-- After the last primitive of an operation, the session is idle, and no other is closed or opened. -/
theorem Lease.close_idle {lease lease' : Lease} {primitive : Primitive} {mode : OperationMode}
    {p q : Pool τ} {result : Except ReturnCode primitive.Result} (hends : primitive.Ends mode)
    (hop : lease.operate primitive p = (result, lease', q)) :
    (lease'.close q).idle = lease.session :: p.idle ∧ (lease'.close q).opened = p.opened := by
  obtain ⟨rfl, hpool, _⟩ := operate_cases hop
  rw [close, hends.activeAfter, hpool]
  exact ⟨rfl, rfl⟩

/-! ## Sessions in use -/

/-- Some count of the sessions that the pool has opened are not idle. -/
def Pool.InUse (p : Pool τ) (n : Nat) : Prop := p.opened = p.idle.length + n

variable {p q : Pool τ} {n : Nat}

omit [Token τ] in
theorem Pool.InUse.occupancy_eq (h : p.InUse n) : p.occupancy.inUse = n := by
  rw [Pool.InUse] at h
  show p.opened - p.idle.length = n
  omega

/-- A session that is acquired is one more in use. -/
theorem Pool.InUse.acquire {result : Except EngineError Lease} (h : p.InUse n)
    (hacq : p.acquire = (result, q)) : q.InUse (n + if result.isOk then 1 else 0) := by
  have hcases := p.acquired
  rw [hacq] at hcases
  simp only [Pool.InUse] at h ⊢
  cases hcases with
  | @reused session idle hidle =>
      rw [hidle, List.length_cons] at h
      show p.opened = idle.length + (n + 1)
      omega
  | full => exact h
  | fresh =>
      show p.opened + 1 = p.idle.length + (n + 1)
      omega
  | refused => exact h

theorem Pool.InUse.operate {lease lease' : Lease} {primitive : Primitive}
    {result : Except ReturnCode primitive.Result} (h : p.InUse n)
    (hop : lease.operate primitive p = (result, lease', q)) : q.InUse n := by
  rw [(Lease.operate_cases hop).2.1]
  exact h

/-- A session that is discarded is one fewer in use. -/
theorem Pool.InUse.discard (h : p.InUse (n + 1)) (lease : Lease) : (lease.discard p).InUse n := by
  show p.opened - 1 = p.idle.length + n
  rw [Pool.InUse] at h
  omega

/-- A session that is given back is one fewer in use. -/
theorem Pool.InUse.close (h : p.InUse (n + 1)) (lease : Lease) : (lease.close p).InUse n := by
  unfold Lease.close
  split
  · exact h.discard lease
  · show p.opened = p.idle.length + 1 + n
    rw [Pool.InUse] at h
    omega

end Cryptoki
