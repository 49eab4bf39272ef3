import Cryptoki.Proofs.Pool.Crowd
import Cryptoki.Proofs.Token.Software
import Mathlib.Data.List.Perm.Subperm

/-!
# `Cryptoki.Proofs.Pool.Accounts` — a pool's books balance at every step of its users

The pool keeps two books, the idle sessions and the count of those opened, and its users bring them
out of step with the token whenever they are between two steps. What holds at every step is about
both together: the count is that of the idle sessions and of all users at whatever stage, and the
idle sessions with the sessions in users' hands are all different. The second of these rests on the
first ending of a lease taking its session away, and on the token not using sessions again that are
still open.

## Contents
- `Crowd.heldIn`, `Crowd.ids` — the sessions in users' hands, and all sessions.
- `Crowd.Apart` — what is known of the sessions; it is kept by opening and closing.
- `Crowd.Sound`, `Crowd.Sound.step`, `Crowd.Sound.run` — the books at every step.
- `Crowd.openedBy`, `Crowd.LeavesIdle` — what one user does to the books.
- `Crowd.accounts` — the books balance.
-/

namespace Cryptoki

open Token (stillOpen failedCloses Event)

namespace Crowd

variable {τ : Type}

/-! ## Sessions in users' hands -/

/-- The sessions in users' hands. -/
def heldIn (tickets : Table Nat Stage) : List SessionId := tickets.values.filterMap Stage.session?

theorem heldIn_insert (tickets : Table Nat Stage) (k : Nat) (stage : Stage) :
    heldIn (tickets.insert k stage) = stage.session?.toList ++ heldIn (tickets.erase k) := by
  rw [heldIn, Table.values_insert, List.filterMap_cons]
  cases stage.session? <;> rfl

theorem heldIn_perm {tickets : Table Nat Stage} {k : Nat} {stage : Stage}
    (h : tickets.get? k = some stage) :
    (heldIn tickets).Perm (stage.session?.toList ++ heldIn (tickets.erase k)) := by
  rw [← heldIn_insert]
  exact (Table.values_perm h).filterMap _

theorem heldIn_of_none {tickets : Table Nat Stage} {k : Nat} (h : tickets.get? k = none) :
    heldIn tickets = heldIn (tickets.erase k) := by
  rw [heldIn, ← Table.values_erase_of_none h]
  rfl

/-- All sessions of the pool, idle or in users' hands. -/
def ids (c : Crowd τ) : List SessionId := c.pool.idle ++ heldIn c.tickets

/-- A user moves on with the session it holds. -/
theorem perm_insert {tickets : Table Nat Stage} {k : Nat} {stage stage' : Stage}
    (h : tickets.get? k = some stage) (hsame : stage'.session? = stage.session?)
    (idle : List SessionId) :
    (idle ++ heldIn tickets).Perm (idle ++ heldIn (tickets.insert k stage')) := by
  rw [heldIn_insert, hsame]
  exact (heldIn_perm h).append_left idle

/-- A user without a session leaves. -/
theorem perm_erase {tickets : Table Nat Stage} {k : Nat} {stage : Stage}
    (h : tickets.get? k = some stage) (hnone : stage.session? = none) (idle : List SessionId) :
    (idle ++ heldIn tickets).Perm (idle ++ heldIn (tickets.erase k)) := by
  have hperm := heldIn_perm h
  rw [hnone] at hperm
  exact hperm.append_left idle

/-! ## Users by stage -/

/-- The live leases. -/
def leases (c : Crowd τ) : List Lease :=
  c.tickets.values.filterMap fun
    | .leased lease => some lease
    | _ => none

/-- The slots of sessions that are yet to be opened, or were not. -/
def reserving (c : Crowd τ) : Nat :=
  c.tickets.values.countP fun
    | .reserved | .refused => true
    | _ => false

/-- The sessions that are being given back. -/
def releasing (c : Crowd τ) : List SessionId :=
  c.tickets.values.filterMap fun
    | .releasing session => some session
    | _ => none

/-- The slots of sessions that are being closed. -/
def closing (c : Crowd τ) : Nat :=
  c.tickets.values.countP fun
    | .closing _ | .closed => true
    | _ => false

/-- Every user is at one stage. -/
theorem size_tickets (c : Crowd τ) :
    c.tickets.size = c.leases.length + c.reserving + c.releasing.length + c.closing := by
  rw [← Table.length_values]
  simp only [leases, reserving, releasing, closing]
  induction c.tickets.values with
  | nil => rfl
  | cons stage stages ih =>
      cases stage <;> simp [ih] <;> omega

/-- The sessions of live leases, and those being given back, are all in users' hands. -/
theorem held_sublist (c : Crowd τ) :
    ∃ rest, (c.leases.map (·.session) ++ c.releasing ++ rest).Perm (heldIn c.tickets) := by
  simp only [leases, releasing, heldIn]
  induction c.tickets.values with
  | nil => exact ⟨[], .refl _⟩
  | cons stage stages ih =>
      obtain ⟨rest, ih⟩ := ih
      cases stage with
      | leased lease => exact ⟨rest, ih.cons lease.session⟩
      | releasing session =>
          refine ⟨rest, ?_⟩
          simp only [List.filterMap_cons, Stage.session?, List.append_assoc, List.cons_append]
          refine List.perm_middle.trans (.cons session ?_)
          rw [← List.append_assoc]
          exact ih
      | closing session =>
          exact ⟨session :: rest, List.perm_middle.trans (ih.cons session)⟩
      | reserved => exact ⟨rest, ih⟩
      | refused => exact ⟨rest, ih⟩
      | closed => exact ⟨rest, ih⟩

/-! ## What is known of the sessions -/

/-- The sessions are all different, still open on the token, and among those that were opened for
    the pool. Of these there are no others, failures to close a session apart. -/
structure Apart (ids own : List SessionId) (log : List Event) : Prop where
  nodup : ids.Nodup
  still : ∀ session ∈ ids, session ∈ stillOpen log
  owned : ∀ session ∈ ids, session ∈ own
  few : own.length ≤ ids.length + failedCloses log

namespace Apart

variable {ids ids' own : List SessionId} {log : List Event} {session : SessionId}

theorem perm (h : Apart ids own log) (hperm : ids.Perm ids') : Apart ids' own log :=
  ⟨hperm.nodup_iff.mp h.nodup, fun s hs => h.still s (hperm.mem_iff.mpr hs),
    fun s hs => h.owned s (hperm.mem_iff.mpr hs), hperm.length_eq ▸ h.few⟩

/-- A session that is opened is a new one. -/
theorem opened (h : Apart ids own log) (hnew : session ∉ stillOpen log) :
    Apart (session :: ids) (session :: own) (⟨.openSession, .ok session⟩ :: log) := by
  refine ⟨List.nodup_cons.mpr ⟨fun hmem => hnew (h.still session hmem), h.nodup⟩, ?_, ?_, ?_⟩
  · intro s hs
    rcases List.mem_cons.mp hs with rfl | hs
    · exact List.mem_cons_self
    · exact List.mem_cons_of_mem session (h.still s hs)
  · intro s hs
    rcases List.mem_cons.mp hs with rfl | hs
    · exact List.mem_cons_self
    · exact List.mem_cons_of_mem session (h.owned s hs)
  · have hfew := h.few
    show own.length + 1 ≤ ids.length + 1 + failedCloses log
    omega

/-- Closing a session leaves the others open, whether it succeeds or not. -/
theorem closed {result : Except ReturnCode Unit} (h : Apart (session :: ids) own log) :
    Apart ids (if result.isOk then own.erase session else own)
      (⟨.closeSession session, result⟩ :: log) := by
  obtain ⟨hnot, hnodup⟩ := List.nodup_cons.mp h.nodup
  have hne : ∀ s ∈ ids, s ≠ session := fun s hs heq => hnot (heq ▸ hs)
  have hopen : ∀ s ∈ ids, s ∈ stillOpen (⟨.closeSession session, result⟩ :: log) := by
    intro s hs
    refine Token.mem_stillOpen_cons (h.still s (List.mem_cons_of_mem session hs)) ?_
    intro heq
    exact hne s hs (Call.closeSession.inj heq).symm
  have hown : session ∈ own := h.owned session List.mem_cons_self
  have hfew := h.few
  rw [List.length_cons] at hfew
  cases result with
  | ok u =>
      refine ⟨hnodup, hopen, ?_, ?_⟩
      · intro s hs
        exact (List.mem_erase_of_ne (hne s hs)).mpr (h.owned s (List.mem_cons_of_mem session hs))
      · show (own.erase session).length ≤ ids.length + failedCloses log
        rw [List.length_erase_of_mem hown]
        omega
  | error code =>
      refine ⟨hnodup, hopen, fun s hs => h.owned s (List.mem_cons_of_mem session hs), ?_⟩
      show own.length ≤ ids.length + (failedCloses log + 1)
      omega

/-- Any other call leaves all sessions open. -/
theorem called {call : Call} {result : Except ReturnCode call.Result} (h : Apart ids own log)
    (hown : ∀ s ∈ own, call ≠ .closeSession s) : Apart ids own (⟨call, result⟩ :: log) := by
  refine ⟨h.nodup, ?_, h.owned, ?_⟩
  · intro s hs
    exact Token.mem_stillOpen_cons (h.still s hs) (hown s (h.owned s hs))
  · have hle := Token.failedCloses_le_cons ⟨call, result⟩ log
    have hfew := h.few
    omega

end Apart

/-! ## The books at every step -/

/-- The books of a pool: as many sessions are counted as are idle or have a user, and no more than
    allowed; the sessions are kept apart. -/
structure Sound [Token τ] (token : τ) (config : PoolConfig) (c : Crowd τ) : Prop where
  reached : Token.Reached (Logged.start token) c.pool.token
  config_eq : c.pool.config = config
  counted : c.pool.opened = c.pool.idle.length + c.tickets.size
  bounded : c.pool.opened ≤ config.maxSessions
  apart : Apart c.ids c.own c.pool.token.log

variable [Token τ] {token : τ} {config : PoolConfig} {c : Crowd τ}

theorem start_sound (token : τ) (config : PoolConfig) : Sound token config (start token config) :=
  ⟨.start, rfl, rfl, Nat.zero_le _, ⟨List.nodup_nil, by simp [ids, start, heldIn, Pool.empty],
    by simp [ids, start, heldIn, Pool.empty], Nat.zero_le _⟩⟩

/-- A user moves on and asks the token for something, with the session it holds. -/
theorem Sound.asked {k : Nat} {stage stage' : Stage} {call : Call}
    {result : Except ReturnCode call.Result} {t : Logged τ} (h : Sound token config c)
    (hstage : c.tickets.get? k = some stage) (hsame : stage'.session? = stage.session?)
    (hanswer : Token.answer call c.pool.token = (result, t))
    (hown : ∀ session ∈ c.own, call ≠ .closeSession session) :
    Sound token config
      { c with pool := { c.pool with token := t }, tickets := c.tickets.insert k stage' } := by
  have hcounted := h.counted
  rw [Table.size_of_some hstage] at hcounted
  obtain ⟨_, hlog⟩ := Logged.answer_eq hanswer
  refine ⟨h.reached.answer hanswer, h.config_eq, hcounted, h.bounded, ?_⟩
  show Apart (c.pool.idle ++ heldIn (c.tickets.insert k stage')) c.own t.log
  rw [hlog]
  exact (h.apart.perm (perm_insert hstage hsame c.pool.idle)).called hown

/-- **A step keeps the books.** -/
theorem Sound.step (h : Sound token config c) (hnew : Token.NoReuse token) (m : Move) :
    Sound token config (c.step m) := by
  have hcounted := h.counted
  have hbounded := h.bounded
  have hmoved := c.moved m
  generalize c.step m = c' at hmoved ⊢
  cases hmoved with
  | stuck => exact h
  | @reused k session idle hfree hidle =>
      rw [hidle, List.length_cons, Table.size_of_none hfree] at hcounted
      -- the session goes from the idle ones to the user
      refine ⟨h.reached, h.config_eq, ?_, hbounded, h.apart.perm ?_⟩
      · show c.pool.opened = idle.length + ((c.tickets.erase k).size + 1)
        omega
      · show (c.pool.idle ++ heldIn c.tickets).Perm (idle ++ heldIn (c.tickets.insert k _))
        rw [hidle, heldIn_insert, heldIn_of_none hfree]
        exact List.perm_middle.symm
  | @reserved k hfree hroom =>
      rw [Table.size_of_none hfree] at hcounted
      -- the slot is counted before there is a session
      refine ⟨h.reached, h.config_eq, ?_, h.config_eq ▸ hroom, h.apart.perm ?_⟩
      · show c.pool.opened + 1 = c.pool.idle.length + ((c.tickets.erase k).size + 1)
        omega
      · show (c.pool.idle ++ heldIn c.tickets).Perm (c.pool.idle ++ heldIn (c.tickets.insert k _))
        rw [heldIn_insert, heldIn_of_none hfree]
        exact .refl _
  | @opened k session t hstage hopen =>
      rw [Table.size_of_some hstage] at hcounted
      obtain ⟨_, hlog⟩ := Logged.answer_eq hopen
      refine ⟨h.reached.answer hopen, h.config_eq, hcounted, hbounded, ?_⟩
      show Apart (c.pool.idle ++ heldIn (c.tickets.insert k _)) (session :: c.own) t.log
      rw [hlog]
      refine (h.apart.opened (hnew _ h.reached session t hopen)).perm ?_
      rw [heldIn_insert]
      exact ((perm_erase hstage rfl c.pool.idle).cons session).trans List.perm_middle.symm
  | refused hstage hopen => exact h.asked hstage rfl hopen fun _ _ => nofun
  | operated hstage hop => exact h.asked hstage rfl hop fun _ _ => nofun
  | @ended k how stage hstage =>
      rw [Table.size_of_some hstage] at hcounted
      exact ⟨h.reached, h.config_eq, hcounted, hbounded,
        h.apart.perm (perm_insert hstage (stage.session?_ended how) c.pool.idle)⟩
  | @released k session hstage =>
      rw [Table.size_of_some hstage] at hcounted
      refine ⟨h.reached, h.config_eq, ?_, hbounded, h.apart.perm ?_⟩
      · show c.pool.opened = c.pool.idle.length + 1 + (c.tickets.erase k).size
        omega
      · exact ((heldIn_perm hstage).append_left c.pool.idle).trans List.perm_middle
  | @closed k session result t hstage hclose =>
      rw [Table.size_of_some hstage] at hcounted
      obtain ⟨_, hlog⟩ := Logged.answer_eq hclose
      refine ⟨h.reached.answer hclose, h.config_eq, hcounted, hbounded, ?_⟩
      show Apart (c.pool.idle ++ heldIn (c.tickets.insert k _))
        (if result.isOk then c.own.erase session else c.own) t.log
      rw [hlog, heldIn_insert]
      exact (h.apart.perm
        (((heldIn_perm hstage).append_left c.pool.idle).trans List.perm_middle)).closed
  | @freed k stage hstage hslot =>
      rw [Table.size_of_some hstage] at hcounted
      -- the count goes down after the session, if there was one, is gone
      have hnone : stage.session? = none := by
        rcases hslot with rfl | rfl <;> rfl
      refine ⟨h.reached, h.config_eq, ?_, ?_, h.apart.perm (perm_erase hstage hnone c.pool.idle)⟩
      · show c.pool.opened - 1 = c.pool.idle.length + (c.tickets.erase k).size
        omega
      · show c.pool.opened - 1 ≤ config.maxSessions
        omega
  | @outside call result t hown hcall =>
      obtain ⟨_, hlog⟩ := Logged.answer_eq hcall
      refine ⟨h.reached.answer hcall, h.config_eq, hcounted, hbounded, ?_⟩
      show Apart c.ids c.own t.log
      rw [hlog]
      exact h.apart.called hown

/-- So do any steps, of any users and in any order. -/
theorem Sound.run (h : Sound token config c) (hnew : Token.NoReuse token) (moves : List Move) :
    Sound token config (c.run moves) := by
  induction moves generalizing c with
  | nil => exact h
  | cons m moves ih => exact ih (h.step hnew m)

/-! ## Acquiring in vain -/

/-- The steps of a user who wants a lease. -/
def Acquires (k : Nat) (m : Move) : Prop :=
  m = .acquire k ∨ m = .openReserved k ∨ m = .freeSlot k

/-- What the steps of one user have changed in the count of sessions. -/
def openedBy (k : Nat) (c : Crowd τ) : List Move → Int
  | [] => 0
  | m :: moves =>
    (if m.ticket? = some k then ((c.step m).pool.opened : Int) - c.pool.opened else 0)
      + openedBy k (c.step m) moves

/-- The steps of one user leave the idle sessions as they are. -/
def LeavesIdle (k : Nat) (c : Crowd τ) : List Move → Prop
  | [] => True
  | m :: moves =>
    (m.ticket? = some k → (c.step m).pool.idle = c.pool.idle) ∧ LeavesIdle k (c.step m) moves

/-- The slots that a user without a lease has reserved. -/
def slots : Option Stage → Int
  | some .reserved | some .refused => 1
  | _ => 0

/-- A user has no session and is in line for one at most. -/
def Seeks (stage? : Option Stage) : Prop :=
  stage? = none ∨ stage? = some .reserved ∨ stage? = some .refused

/-- The steps of others leave a user where it is. -/
theorem get?_step_other {k : Nat} {m : Move} (c : Crowd τ) (h : m.ticket? ≠ some k) :
    (c.step m).tickets.get? k = c.tickets.get? k := by
  have hne : ∀ {j : Nat}, some j ≠ some k → k ≠ j := fun h heq => h (heq ▸ rfl)
  have hmoved := c.moved m
  generalize c.step m = c' at hmoved ⊢
  cases hmoved with
  | stuck => rfl
  | outside => rfl
  | reused => rw [Table.get?_insert, if_neg (hne h)]
  | reserved => rw [Table.get?_insert, if_neg (hne h)]
  | opened => rw [Table.get?_insert, if_neg (hne h)]
  | refused => rw [Table.get?_insert, if_neg (hne h)]
  | operated => rw [Table.get?_insert, if_neg (hne h)]
  | ended => rw [Table.get?_insert, if_neg (hne h)]
  | closed => rw [Table.get?_insert, if_neg (hne h)]
  | released => rw [Table.get?_erase, if_neg (hne h)]
  | freed => rw [Table.get?_erase, if_neg (hne h)]

/-- A step of a user in line gets it a lease, or moves the count of sessions with its slot. -/
theorem Sound.seek (h : Sound token config c) {k : Nat} {m : Move}
    (hseeks : Seeks (c.tickets.get? k)) (hm : Acquires k m) :
    (∃ lease, (c.step m).tickets.get? k = some (.leased lease))
      ∨ (Seeks ((c.step m).tickets.get? k) ∧ (c.step m).pool.idle = c.pool.idle
        ∧ ((c.step m).pool.opened : Int) - c.pool.opened
          = slots ((c.step m).tickets.get? k) - slots (c.tickets.get? k)) := by
  have hcounted := h.counted
  have hmoved := c.moved m
  generalize c.step m = c' at hmoved ⊢
  rcases hm with rfl | rfl | rfl
  · cases hmoved with
    | stuck => exact .inr ⟨hseeks, rfl, by omega⟩
    | reused => exact .inl ⟨_, by rw [Table.get?_insert, if_pos rfl]⟩
    | reserved hfree =>
        refine .inr ?_
        dsimp only
        rw [Table.get?_insert, if_pos rfl, hfree]
        refine ⟨.inr (.inl rfl), rfl, ?_⟩
        show ((c.pool.opened + 1 : Nat) : Int) - c.pool.opened = 1 - 0
        omega
  · cases hmoved with
    | stuck => exact .inr ⟨hseeks, rfl, by omega⟩
    | opened => exact .inl ⟨_, by rw [Table.get?_insert, if_pos rfl]⟩
    | refused hstage =>
        refine .inr ?_
        dsimp only
        rw [Table.get?_insert, if_pos rfl, hstage]
        exact ⟨.inr (.inr rfl), rfl, by simp [slots]⟩
  · cases hmoved with
    | stuck => exact .inr ⟨hseeks, rfl, by omega⟩
    | @freed _ stage hstage hslot =>
        have hrefused : stage = .refused := by
          rcases hslot with rfl | rfl
          · rfl
          · rw [hstage] at hseeks
            rcases hseeks with hseeks | hseeks | hseeks <;> cases hseeks
        rw [Table.size_of_some hstage] at hcounted
        refine .inr ?_
        dsimp only
        rw [Table.get?_erase, if_pos rfl, hstage, hrefused]
        refine ⟨.inl rfl, rfl, ?_⟩
        show ((c.pool.opened - 1 : Nat) : Int) - c.pool.opened = 0 - 1
        omega

/-- A user with a lease has nothing left to acquire. -/
theorem get?_step_leased {k : Nat} {m : Move} {lease : Lease}
    (hstage : c.tickets.get? k = some (.leased lease)) (hm : m.ticket? = some k → Acquires k m) :
    (c.step m).tickets.get? k = some (.leased lease) := by
  by_cases hk : m.ticket? = some k
  · rcases hm hk with rfl | rfl | rfl <;> simp [step, hstage]
  · rw [c.get?_step_other hk, hstage]

theorem get?_run_leased {k : Nat} {moves : List Move} {lease : Lease}
    (hstage : c.tickets.get? k = some (.leased lease))
    (hmoves : ∀ m ∈ moves, m.ticket? = some k → Acquires k m) :
    (c.run moves).tickets.get? k = some (.leased lease) := by
  induction moves generalizing c with
  | nil => exact hstage
  | cons m moves ih =>
      exact ih (get?_step_leased hstage (hmoves m List.mem_cons_self))
        fun n hn => hmoves n (List.mem_cons_of_mem m hn)

/-- A user who acquires in vain gives up what it has reserved, and touches no idle session. -/
theorem Sound.vain (h : Sound token config c) (hnew : Token.NoReuse token) {k : Nat}
    {moves : List Move} (hseeks : Seeks (c.tickets.get? k))
    (hmoves : ∀ m ∈ moves, m.ticket? = some k → Acquires k m)
    (hvain : (c.run moves).tickets.get? k = none) :
    LeavesIdle k c moves ∧ openedBy k c moves = - slots (c.tickets.get? k) := by
  induction moves generalizing c with
  | nil =>
      have hnone : c.tickets.get? k = none := hvain
      rw [hnone]
      exact ⟨trivial, rfl⟩
  | cons m moves ih =>
      have hrest : ∀ n ∈ moves, n.ticket? = some k → Acquires k n :=
        fun n hn => hmoves n (List.mem_cons_of_mem m hn)
      by_cases hk : m.ticket? = some k
      · rcases h.seek hseeks (hmoves m List.mem_cons_self hk) with ⟨lease, hleased⟩ | hsought
        · -- a lease would still be there at the end
          have hend : (c.run (m :: moves)).tickets.get? k = some (.leased lease) :=
            get?_run_leased (c := c.step m) hleased hrest
          rw [hvain] at hend
          cases hend
        · obtain ⟨hseeks', hidle, hcount⟩ := hsought
          obtain ⟨hleaves, hopened⟩ := ih (h.step hnew m) hseeks' hrest hvain
          refine ⟨⟨fun _ => hidle, hleaves⟩, ?_⟩
          rw [openedBy, if_pos hk, hopened]
          omega
      · have hsame := c.get?_step_other hk
        rw [← hsame] at hseeks ⊢
        obtain ⟨hleaves, hopened⟩ := ih (h.step hnew m) hseeks hrest hvain
        refine ⟨⟨fun hmine => absurd hmine hk, hleaves⟩, ?_⟩
        rw [openedBy, if_neg hk, hopened]
        omega

/-! ## The accounts -/

/-- **The books of a pool balance.** Over a token that opens no session again which is still open,
    and whatever steps its users take in any order, at each moment:
    - the idle sessions, those of live leases and those being given back are all different, so
      none is leased twice or given back twice;
    - the sessions opened are those idle and leased and the slots in between, never more than
      allowed, and no subtraction from the count falls below zero;
    - a user who acquires in vain leaves both books as they would be without its steps;
    - the sessions that were opened for the pool and are open on the token are all different and no
      more than are counted, as long as the token has not failed to close one, and each such
      failure adds one at most. -/
theorem accounts (token : τ) (config : PoolConfig) (hnew : Token.NoReuse token)
    (moves : List Move) :
    let c := (start token config).run moves
    (c.pool.idle ++ (c.leases.map (·.session) ++ c.releasing)).Nodup
      ∧ c.pool.opened = c.pool.idle.length + c.leases.length
          + (c.reserving + c.releasing.length + c.closing)
      ∧ c.pool.opened ≤ config.maxSessions
      ∧ c.pool.idle.length ≤ c.pool.opened
      ∧ (∀ (k : Nat) (stage : Stage), c.tickets.get? k = some stage → 0 < c.pool.opened)
      ∧ (∀ (k : Nat) (further : List Move), c.tickets.get? k = none →
          (∀ m ∈ further, m.ticket? = some k → Acquires k m) →
          (c.run further).tickets.get? k = none →
          LeavesIdle k c further ∧ openedBy k c further = 0)
      ∧ c.own.length ≤ c.pool.opened + failedCloses c.pool.token.log
      ∧ (failedCloses c.pool.token.log = 0 →
          c.own.Nodup ∧ ∀ session ∈ c.own, session ∈ stillOpen c.pool.token.log) := by
  intro c
  have h : Sound token config c := (start_sound token config).run hnew moves
  have hcounted := h.counted
  have hfew := h.apart.few
  obtain ⟨rest, hheld⟩ := c.held_sublist
  have hids : c.ids.length ≤ c.pool.opened := by
    have hlength : (heldIn c.tickets).length ≤ c.tickets.size := by
      rw [← Table.length_values]
      exact List.length_filterMap_le _ _
    rw [ids, List.length_append]
    omega
  refine ⟨?_, ?_, h.bounded, by omega, ?_, ?_, by omega, ?_⟩
  · have hperm := hheld.append_left c.pool.idle
    rw [← List.append_assoc] at hperm
    exact (List.nodup_append.mp (hperm.nodup_iff.mpr h.apart.nodup)).1
  · have hsize := c.size_tickets
    omega
  · intro k stage hstage
    have hsize := Table.size_of_some hstage
    omega
  · intro k further hfree hmoves hvain
    obtain ⟨hleaves, hopened⟩ := h.vain hnew (.inl hfree) hmoves hvain
    rw [hfree] at hopened
    exact ⟨hleaves, hopened⟩
  · intro hnever
    -- nothing is lost, so the sessions opened for the pool are exactly those it has
    have hperm : c.ids.Perm c.own :=
      (h.apart.nodup.subperm h.apart.owned).perm_of_length_le (by omega)
    exact ⟨hperm.nodup_iff.mp h.apart.nodup,
      fun s hs => h.apart.still s (hperm.mem_iff.mpr hs)⟩

/-- The second of two users acquires in vain, as the token allows one session only, while the first
    gives its session back. -/
theorem accounts_of_refusal :
    let token : Software .standard := .empty (some 1) false
    let c := (start token { maxSessions := 2 }).run [.acquire 0, .openReserved 0]
    let further := [.acquire 1, .finish 0 .drop, .openReserved 1, .release 0, .freeSlot 1]
    Token.NoReuse token
      ∧ c.tickets.get? 1 = none
      ∧ (∀ m ∈ further, m.ticket? = some 1 → Acquires 1 m)
      ∧ (c.run further).tickets.get? 1 = none
      ∧ LeavesIdle 1 c further ∧ openedBy 1 c further = 0
      ∧ (c.run further).pool.idle = [⟨1⟩] ∧ (c.run further).pool.opened = 1 := by
  have hmoves : ∀ m ∈ [.acquire 1, .finish 0 .drop, .openReserved 1, .release 0, .freeSlot 1],
      m.ticket? = some 1 → Acquires 1 m := by
    simp [Move.ticket?, Acquires]
  have hbalance := accounts (.empty (some 1) false : Software .standard) { maxSessions := 2 }
    (Software.noReuse _) [.acquire 0, .openReserved 0]
  obtain ⟨hleaves, hopened⟩ := hbalance.2.2.2.2.2.1 1 _ (by decide +kernel) hmoves
    (by decide +kernel)
  exact ⟨Software.noReuse _, by decide +kernel, hmoves, by decide +kernel, hleaves, hopened,
    by decide +kernel, by decide +kernel⟩

end Crowd

end Cryptoki
