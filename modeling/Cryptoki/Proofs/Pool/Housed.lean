import Cryptoki.Proofs.Application.Leases
import Cryptoki.Proofs.Engine.Reach
import Cryptoki.Proofs.Token.Discipline

/-!
# `Cryptoki.Proofs.Pool.Housed` — the sessions of a pool, while others use the token too

A token may be called past the pool, and a session of the pool may be closed in that way. Then pool
and token no longer agree, but not everything is lost. The sessions that are idle or leased are still
all different, as the token gives no number twice; each of them is open unless it was closed past the
pool; and one that is neither idle nor leased will never be again.

All of this is said of a list of sessions and the token first, and then of a pool with all leases.

## Contents
- `Software.Houses` — sessions that are different, and open unless they are gone.
- `Software.Dead` — a session that is open no longer, for good.
- `Pool.Housed`, `keeps_housed` — the sessions of a pool, and that each use of a lease keeps them so.
- `Pool.Barred`, `keeps_barred` — a session that the pool will not lend any more.
- `Application.after_housed`, `Application.after_limited`, `Application.after_dead`,
  `Application.after_barred` — what holds after any actions.
-/

namespace Cryptoki

variable {ops : KeyOperations}

namespace Software

variable {t u : Software ops} {session s : SessionId} {sessions : List SessionId}
  {gone : SessionId → Prop}

/-! ## Sessions that are kept -/

/-- The sessions are all different, they are among those that the token has numbered, and each of
    them is open unless it is gone. -/
structure Houses (gone : SessionId → Prop) (sessions : List SessionId) (t : Software ops) :
    Prop where
  nodup : sessions.Nodup
  numbered : ∀ s ∈ sessions, s.value ≤ t.sessions.last
  isOpen : ∀ s ∈ sessions, ¬ gone s → t.sessions.slot? s ≠ none

namespace Houses

theorem perm {sessions' : List SessionId} (h : t.Houses gone sessions)
    (hperm : sessions.Perm sessions') : t.Houses gone sessions' :=
  ⟨hperm.nodup_iff.mp h.nodup, fun s hs => h.numbered s (hperm.mem_iff.mpr hs),
    fun s hs => h.isOpen s (hperm.mem_iff.mpr hs)⟩

/-- Another token may have the same sessions. -/
theorem congr (h : t.Houses gone sessions) (hsessions : u.sessions = t.sessions) :
    u.Houses gone sessions :=
  ⟨h.nodup, by rw [hsessions]; exact h.numbered, by rw [hsessions]; exact h.isOpen⟩

/-- A session that is opened is one more. -/
theorem opened (h : t.Houses gone sessions)
    (hopen : Token.answer .openSession t = (.ok session, u)) :
    u.Houses gone (session :: sessions) := by
  have hlast := t.last_le_answer .openSession
  rw [hopen] at hlast
  refine ⟨List.nodup_cons.mpr ⟨?_, h.nodup⟩, ?_, ?_⟩
  · exact fun hmem => ne_of_answer_open hopen (h.numbered session hmem) rfl
  · intro s hs
    rcases List.mem_cons.mp hs with rfl | hs
    · obtain ⟨rfl, hsessions⟩ := answer_open_ok hopen
      have hnumbered : u.sessions.last = t.sessions.last + 1 := congrArg Sessions.last hsessions
      exact Nat.le_of_eq hnumbered.symm
    · exact Nat.le_trans (h.numbered s hs) hlast
  · intro s hs hgone
    rw [slot?_answer_open hopen]
    split
    · exact nofun
    · next hne => exact h.isOpen s ((List.mem_cons.mp hs).resolve_left hne) hgone

theorem operate (h : t.Houses gone sessions) (session : SessionId) (primitive : Primitive) :
    (t.operate session primitive).2.Houses gone sessions := by
  refine ⟨h.nodup, ?_, ?_⟩
  · rw [operate_last]
    exact h.numbered
  · intro s hs hgone hnone
    exact h.isOpen s hs hgone ((slot?_operate_eq_none t session s primitive).mp hnone)

/-- A session that is closed is one fewer. -/
theorem closed (h : t.Houses gone (session :: sessions)) :
    (Token.answer (.closeSession session) t).2.Houses gone sessions := by
  obtain ⟨hnot, hnodup⟩ := List.nodup_cons.mp h.nodup
  refine ⟨hnodup, fun s hs => ?_, fun s hs hgone => ?_⟩
  · exact Nat.le_trans (h.numbered s (List.mem_cons_of_mem session hs)) (t.last_le_answer _)
  · rw [slot?_answer_close, if_neg fun heq : s = session => hnot (heq ▸ hs)]
    exact h.isOpen s (List.mem_cons_of_mem session hs) hgone

/-- A call may come past the pool, if a session that it closes is gone. -/
theorem answer (h : t.Houses gone sessions) {call : Call}
    (hgone : ∀ session, call = .closeSession session → gone session) :
    (Token.answer call t).2.Houses gone sessions := by
  cases call with
  | openSession =>
      rcases hopen : Token.answer .openSession t with ⟨code | session, u⟩
      · rw [(answer_open_error hopen).1]
        exact h
      · have hopened := h.opened hopen
        exact ⟨h.nodup, fun s hs => hopened.numbered s (List.mem_cons_of_mem session hs),
          fun s hs => hopened.isOpen s (List.mem_cons_of_mem session hs)⟩
  | closeSession session =>
      refine ⟨h.nodup, fun s hs => ?_, fun s hs hleft => ?_⟩
      · exact Nat.le_trans (h.numbered s hs) (t.last_le_answer _)
      · rw [slot?_answer_close, if_neg fun heq : s = session => hleft (heq ▸ hgone session rfl)]
        exact h.isOpen s hs hleft
  | mechanismInfo mechanism => exact h
  | operate session primitive => exact h.operate session primitive

end Houses

/-! ## Sessions that are gone -/

/-- The session was open once, and is open no longer. -/
structure Dead (session : SessionId) (t : Software ops) : Prop where
  closed : t.sessions.slot? session = none
  numbered : session.value ≤ t.sessions.last

theorem Dead.congr (h : t.Dead session) (hsessions : u.sessions = t.sessions) : u.Dead session :=
  ⟨by rw [hsessions]; exact h.closed, by rw [hsessions]; exact h.numbered⟩

/-- **A session that is dead stays dead**, whatever is called. -/
theorem Dead.answer (h : t.Dead session) (call : Call) : (Token.answer call t).2.Dead session := by
  refine ⟨?_, Nat.le_trans h.numbered (t.last_le_answer call)⟩
  cases call with
  | openSession =>
      rcases hopen : Token.answer .openSession t with ⟨code | opened, u⟩
      · rw [(answer_open_error hopen).1]
        exact h.closed
      · rw [slot?_answer_open hopen, if_neg (ne_of_answer_open hopen h.numbered)]
        exact h.closed
  | closeSession other =>
      rw [slot?_answer_close, h.closed, ite_self]
  | mechanismInfo mechanism => exact h.closed
  | operate other primitive => exact (slot?_operate_eq_none t other session primitive).mpr h.closed

end Software

/-! ## The sessions of a pool -/

namespace Pool

/-- The sessions of a pool: those that are idle, and those of the leases. -/
def sessionsWith {τ : Type} (ls : List Lease) (p : Pool τ) : List SessionId :=
  p.idle ++ ls.map Lease.session

/-- The sessions of the pool are different, and open unless they are gone. -/
def Housed (gone : SessionId → Prop) (ls : List Lease) (p : Pool (Logged (Software ops))) : Prop :=
  p.token.token.Houses gone (p.sessionsWith ls)

/-- A session is not one of the pool's, and too old to become one. -/
structure Barred (session : SessionId) (ls : List Lease) (p : Pool (Logged (Software ops))) :
    Prop where
  out : session ∉ p.sessionsWith ls
  numbered : session.value ≤ p.token.token.sessions.last

/-- What comes of acquiring a lease, for the sessions of the pool and for the token. -/
theorem acquire_sessions {p q : Pool (Logged (Software ops))} {result : Except EngineError Lease}
    (hacq : p.acquire = (result, q)) (ls : List Lease) :
    (q.sessionsWith (result.toOption.toList ++ ls)).Perm (p.sessionsWith ls)
        ∧ q.token.token.sessions = p.token.token.sessions
      ∨ ∃ session, (q.sessionsWith (result.toOption.toList ++ ls)).Perm
          (session :: p.sessionsWith ls)
        ∧ Token.answer .openSession p.token.token = (.ok session, q.token.token) := by
  have hacquired := p.acquired
  rw [hacq] at hacquired
  cases hacquired with
  | reused hidle =>
      refine .inl ⟨?_, rfl⟩
      simp only [sessionsWith, hidle]
      exact List.perm_middle
  | full => exact .inl ⟨.refl _, rfl⟩
  | fresh _ _ hopen => exact .inr ⟨_, List.perm_middle, (Logged.answer_eq hopen).1⟩
  | refused _ _ hopen =>
      obtain ⟨hsame, _⟩ := Software.answer_open_error (Logged.answer_eq hopen).1
      exact .inl ⟨.refl _, congrArg Software.sessions hsame⟩

/-- A session that is given back is idle or closed. -/
theorem close_sessions (lease : Lease) (ls : List Lease) (p : Pool (Logged (Software ops))) :
    lease.close p = lease.discard p
      ∨ ((lease.close p).sessionsWith ls).Perm (p.sessionsWith (lease :: ls))
        ∧ (lease.close p).token = p.token := by
  unfold Lease.close
  split
  · exact .inl rfl
  · exact .inr ⟨List.perm_middle.symm, rfl⟩

/-- A session that is discarded is none of the pool's any longer. -/
theorem Housed.discard_barred {gone : SessionId → Prop} {lease : Lease} {ls : List Lease}
    {p : Pool (Logged (Software ops))} (h : p.Housed gone (lease :: ls)) :
    (lease.discard p).Barred lease.session ls := by
  have hlast := p.token.token.last_le_answer (.closeSession lease.session)
  have hperm : (p.sessionsWith (lease :: ls)).Perm (lease.session :: p.sessionsWith ls) :=
    List.perm_middle
  refine ⟨(List.nodup_cons.mp (hperm.nodup_iff.mp h.nodup)).1, ?_⟩
  exact Nat.le_trans (h.numbered _ (hperm.mem_iff.mpr List.mem_cons_self)) hlast

end Pool

theorem keeps_dead (session : SessionId) :
    Keeps fun _ (p : Pool (Logged (Software ops))) => p.token.token.Dead session :=
  keeps_token (P := fun t : Logged (Software ops) => t.token.Dead session) fun call _ h =>
    h.answer call

theorem keeps_limited : Keeps fun _ (p : Pool (Logged (Software ops))) => p.token.token.Limited :=
  keeps_token (P := fun t : Logged (Software ops) => t.token.Limited) fun call _ h => h.answer call

/-- **Each use of a lease keeps the sessions of the pool as they should be.** -/
theorem keeps_housed (gone : SessionId → Prop) :
    KeepsAll fun ls (p : Pool (Logged (Software ops))) => p.Housed gone ls := by
  have hdiscard {lease : Lease} {ls : List Lease} {p : Pool (Logged (Software ops))}
      (h : p.Housed gone (lease :: ls)) : (lease.discard p).Housed gone ls :=
    (h.perm List.perm_middle).closed
  refine ⟨fun hperm h => h.perm ((hperm.map _).append_left _), fun others => ?_⟩
  exact {
    acquire := by
      intro p q result h hacq
      rcases Pool.acquire_sessions hacq others with ⟨hperm, hsame⟩ | ⟨session, hperm, hopen⟩
      · exact (Software.Houses.congr h hsame).perm hperm.symm
      · exact (Software.Houses.opened h hopen).perm hperm.symm
    operate := by
      intro lease lease' p q primitive result h hop
      obtain ⟨rfl, hpool, hanswer⟩ := Lease.operate_cases hop
      obtain ⟨htoken, _⟩ := Logged.answer_eq hanswer
      have hoperate := Software.Houses.operate h lease.session primitive
      rw [show p.token.token.operate lease.session primitive = (result, q.token.token)
        from htoken] at hoperate
      rw [hpool]
      exact hoperate
    close := by
      intro lease p h
      rcases Pool.close_sessions lease others p with hclose | ⟨hperm, hsame⟩
      · rw [hclose]
        exact hdiscard h
      · show (lease.close p).token.token.Houses gone _
        rw [hsame]
        exact Software.Houses.perm h hperm.symm
    discard := hdiscard
    asked := fun _ h => h }

/-- **A session that is none of the pool's does not become one again**, whatever leases are used. -/
theorem keeps_barred (session : SessionId) :
    KeepsAll fun ls (p : Pool (Logged (Software ops))) => p.Barred session ls := by
  have hdiscard {lease : Lease} {ls : List Lease} {p : Pool (Logged (Software ops))}
      (h : p.Barred session (lease :: ls)) : (lease.discard p).Barred session ls := by
    have hlast := p.token.token.last_le_answer (.closeSession lease.session)
    refine ⟨?_, Nat.le_trans h.numbered hlast⟩
    intro hmem
    exact h.out (List.perm_middle.mem_iff.mpr (List.mem_cons_of_mem _ hmem))
  refine ⟨?_, fun others => ?_⟩
  · intro ls ls' p hperm h
    exact ⟨fun hmem => h.out (((hperm.map _).append_left _).mem_iff.mpr hmem), h.numbered⟩
  exact {
    acquire := by
      intro p q result h hacq
      rcases Pool.acquire_sessions hacq others with ⟨hperm, hsame⟩ | ⟨opened, hperm, hopen⟩
      · exact ⟨fun hmem => h.out (hperm.mem_iff.mp hmem), by rw [hsame]; exact h.numbered⟩
      · have hlast := p.token.token.last_le_answer .openSession
        rw [hopen] at hlast
        refine ⟨fun hmem => ?_, Nat.le_trans h.numbered hlast⟩
        rcases List.mem_cons.mp (hperm.mem_iff.mp hmem) with heq | hmem
        · exact Software.ne_of_answer_open hopen h.numbered heq
        · exact h.out hmem
    operate := by
      intro lease lease' p q primitive result h hop
      obtain ⟨rfl, hpool, hanswer⟩ := Lease.operate_cases hop
      have hlast := p.token.token.last_le_answer (.operate lease.session primitive)
      rw [(Logged.answer_eq hanswer).1] at hlast
      rw [hpool]
      exact ⟨h.out, Nat.le_trans h.numbered hlast⟩
    close := by
      intro lease p h
      rcases Pool.close_sessions lease others p with hclose | ⟨hperm, hsame⟩
      · rw [hclose]
        exact hdiscard h
      · exact ⟨fun hmem => h.out (hperm.mem_iff.mp hmem), by rw [hsame]; exact h.numbered⟩
    discard := hdiscard
    asked := fun _ h => ⟨h.out, h.numbered⟩ }

/-! ## Applications -/

namespace Application

variable {a : Application (Logged (Software ops))} {actions : List Action} {session : SessionId}
  {gone : SessionId → Prop}

/-- Some action closes the session past the pool. -/
def ClosesPast (actions : List Action) (session : SessionId) : Prop :=
  .command (.token (.closeSession session)) ∈ actions

theorem start_housed (gone : SessionId → Prop) (limit : Option Nat) (sessionObjects : Bool)
    (config : PoolConfig) :
    let token : Software ops := .empty limit sessionObjects
    (Pool.empty (Logged.start token) config).Housed gone [] :=
  ⟨List.nodup_nil, nofun, nofun⟩

theorem start_limited (limit : Option Nat) (sessionObjects : Bool) :
    (.empty limit sessionObjects : Software ops).Limited :=
  fun _ _ => Nat.zero_le _

/-- **The sessions of the pool are as they should be after any actions**, except for those that are
    closed past it. -/
theorem after_housed (h : a.pool.Housed gone a.allLeases)
    (hgone : ∀ session, ClosesPast actions session → gone session) :
    (a.after actions).pool.Housed gone (a.after actions).allLeases := by
  refine (keeps_housed gone).after ?_ ?_ h
  · intro call hmem ls p h
    refine h.answer ?_
    rintro session rfl
    exact hgone session hmem
  · intro ls p u hsessions h
    exact h.congr hsessions

theorem after_limited (h : a.pool.token.token.Limited) (actions : List Action) :
    (a.after actions).pool.token.token.Limited := by
  refine (KeepsAll.of_pool keeps_limited).after ?_ ?_ h
  · intro call _ _ p h
    exact h.answer call
  · intro _ p u hsessions h
    exact h.congr hsessions

theorem after_dead (h : a.pool.token.token.Dead session) (actions : List Action) :
    (a.after actions).pool.token.token.Dead session := by
  refine (KeepsAll.of_pool (keeps_dead session)).after ?_ ?_ h
  · intro call _ _ p h
    exact h.answer call
  · intro _ p u hsessions h
    exact h.congr hsessions

/-- **A session that the pool does not lend any more is not lent again**, whatever is done. -/
theorem after_barred (h : a.pool.Barred session a.allLeases) (actions : List Action) :
    (a.after actions).pool.Barred session (a.after actions).allLeases := by
  refine (keeps_barred session).after ?_ ?_ h
  · intro call _ ls p h
    exact ⟨h.out, Nat.le_trans h.numbered (p.token.token.last_le_answer call)⟩
  · intro ls p u hsessions h
    exact ⟨h.out, by rw [hsessions]; exact h.numbered⟩

end Application

end Cryptoki
