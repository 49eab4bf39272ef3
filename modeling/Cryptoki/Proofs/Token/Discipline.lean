import Cryptoki.Proofs.Token.Keys
import Cryptoki.Proofs.Token.Software

/-!
# `Cryptoki.Proofs.Token.Discipline` — the rules of the token in memory, over any run

Keys are stored and calls are made, in any order and with any arguments. Whatever that was, the token
keeps to its rules. What one call does is read off the slot that it writes. That sessions and keys
have numbers of their own needs the run: open sessions and stored keys have numbers up to the last
one given, every action keeps that, and each new number is one more.

## Contents
- `Software.Action`, `Software.Event`, `Software.run` — what is done to a token, and what comes of it.
- `Software.Limited` — no more sessions are open than may be.
- `Software.Numbered` — no session or key has a number that is still to be given.
- `Software.Action.Spares`, `Software.Numbered.slot?_act`, `Software.Numbered.get?_act` — what an
  action leaves alone.
- `Software.ascending_sessions`, `Software.ascending_handles` — the numbers that a run gives.
- `Software.Disciplined`, `Software.discipline` — the rules.
-/

namespace Cryptoki

namespace Software

/-! ## What is done to a token -/

/-- Something done to a token: a key pair is stored, or a call is made. -/
inductive Action
  | store (secret : KeySecret)
  | call (call : Call)

/-- Something done to a token, with what came of it. -/
inductive Event
  | stored (secret : KeySecret) (pair : KeyPair)
  | answered (event : Token.Event)

/-- The sessions that were opened. -/
def Event.sessions : Event → List SessionId
  | answered ⟨.openSession, .ok session⟩ => [session]
  | _ => []

/-- The handles that were given to keys. -/
def Event.handles : Event → List ObjectHandle
  | stored _ pair => [pair.privateKey.handle, pair.publicKey.handle]
  | answered _ => []

/-- The action is no call on the session. -/
def Action.Spares (session : SessionId) : Action → Prop
  | call (.closeSession other) | call (.operate other _) => other ≠ session
  | _ => True

variable {ops : KeyOperations}

/-- What comes of an action, and the token after it. -/
def act (t : Software ops) : Action → Event × Software ops
  | .store secret => (.stored secret (t.addPair secret).1, (t.addPair secret).2)
  | .call call => (.answered ⟨call, (Token.answer call t).1⟩, (Token.answer call t).2)

/-- What comes of some actions, one after the other, and the token after them. -/
def run (t : Software ops) : List Action → List Event × Software ops
  | [] => ([], t)
  | action :: actions =>
    let (event, t) := t.act action
    let (events, t) := t.run actions
    (event :: events, t)

variable {t u : Software ops} {session : SessionId} {handle : ObjectHandle} {action : Action}

/-- What every action keeps holds after any actions. -/
theorem run_keeps {P : Software ops → Prop} (hact : ∀ action t, P t → P (t.act action).2) (h : P t)
    (actions : List Action) : P (t.run actions).2 := by
  induction actions generalizing t with
  | nil => exact h
  | cons action actions ih => exact ih (hact action t h)

/-! ## The limit -/

/-- No more sessions are open than may be. -/
def Limited (t : Software ops) : Prop :=
  ∀ limit, t.sessions.limit = some limit → t.sessions.size ≤ limit

/-- **A call keeps to the limit.** -/
theorem Limited.answer (h : t.Limited) (call : Call) : (Token.answer call t).2.Limited := by
  intro limit hsome
  rw [limit_answer] at hsome
  have hle := h limit hsome
  cases call with
  | openSession =>
      rcases hopen : Token.answer .openSession t with ⟨code | session, u⟩
      · rw [(answer_open_error hopen).1]
        exact hle
      · have hroom : (Token.answer .openSession t).1.isOk = true := by
          rw [hopen]
          rfl
        have hlt : t.sessions.size < limit := (answer_open_isOk t).mp hroom limit hsome
        have hsize := Table.size_insert t.sessions.slots session (none : Option SoftwareOperation)
        rw [(answer_open_ok hopen).2]
        show (t.sessions.slots.insert session none).size ≤ limit
        have hslots : t.sessions.slots.size < limit := hlt
        rw [hsize]
        split <;> omega
  | closeSession session =>
      show (t.sessions.close session).2.size ≤ limit
      cases hslot : t.sessions.slot? session with
      | none =>
          simp only [Sessions.close, hslot]
          exact hle
      | some op =>
          have hsize := Sessions.size_close (show t.sessions.slot? session ≠ none by simp [hslot])
          omega
  | mechanismInfo mechanism => exact hle
  | operate session primitive =>
      show (t.operate session primitive).2.sessions.size ≤ limit
      cases hslot : t.sessions.slot? session with
      | none =>
          rw [operate_closed hslot]
          exact hle
      | some op =>
          obtain ⟨_, _, hwrites⟩ := operated hslot primitive
          rw [hwrites.size]
          exact hle

theorem Limited.congr (h : t.Limited) (hsessions : u.sessions = t.sessions) : u.Limited := by
  unfold Limited
  rw [hsessions]
  exact h

/-- Once a session was closed, another one can be opened. -/
theorem Limited.answer_open_of_close (h : t.Limited) (hopen : t.sessions.slot? session ≠ none) :
    (Token.answer .openSession (Token.answer (.closeSession session) t).2).1.isOk = true := by
  refine (answer_open_isOk _).mpr fun limit hsome => ?_
  have hle := h limit ((limit_answer (.closeSession session) t).symm.trans hsome)
  have hsize : (t.sessions.close session).2.size + 1 = t.sessions.size := Sessions.size_close hopen
  show (t.sessions.close session).2.size < limit
  omega

theorem Limited.act (h : t.Limited) (action : Action) : (t.act action).2.Limited := by
  cases action with
  | store secret => exact h.congr (sessions_addPair t secret)
  | call call => exact h.answer call

/-- The limit itself does not change. -/
theorem limit_act (t : Software ops) (action : Action) :
    (t.act action).2.sessions.limit = t.sessions.limit := by
  cases action with
  | store secret => exact congrArg Sessions.limit (sessions_addPair t secret)
  | call call => exact limit_answer call t

/-! ## Numbers -/

/-- No session that is open and no key that is stored has a number that is still to be given. -/
structure Numbered (t : Software ops) : Prop where
  sessions : ∀ session, t.sessions.slot? session ≠ none → session.value ≤ t.sessions.last
  keys : ∀ handle, t.keys.get? handle ≠ none → handle.value ≤ t.lastHandle

namespace Numbered

theorem of_empty (limit : Option Nat) (sessionObjects : Bool) :
    (empty limit sessionObjects : Software ops).Numbered :=
  ⟨fun _ h => absurd rfl h, fun _ h => absurd rfl h⟩

theorem addPair (h : t.Numbered) (secret : KeySecret) : (t.addPair secret).2.Numbered := by
  refine ⟨?_, ?_⟩
  · rw [sessions_addPair]
    exact h.sessions
  · intro handle hkey
    rw [lastHandle_addPair]
    rw [get?_addPair] at hkey
    split at hkey
    · next hpublic => exact Nat.le_of_eq (congrArg ObjectHandle.value hpublic)
    · split at hkey
      · next hprivate =>
          rw [hprivate]
          exact Nat.le_succ _
      · exact Nat.le_trans (h.keys handle hkey) (Nat.le_add_right _ 2)

theorem answer (h : t.Numbered) (call : Call) : (Token.answer call t).2.Numbered := by
  obtain ⟨hkeys, hhandle⟩ := answer_keys call t
  refine ⟨?_, by rw [hkeys, hhandle]; exact h.keys⟩
  intro session hopen
  cases call with
  | openSession =>
      rcases hanswer : Token.answer .openSession t with ⟨code | opened, u⟩
      · rw [hanswer] at hopen
        obtain ⟨rfl, _⟩ := answer_open_error hanswer
        exact h.sessions session hopen
      · rw [hanswer] at hopen
        obtain ⟨hnumber, hsessions⟩ := answer_open_ok hanswer
        have hlast : u.sessions.last = t.sessions.last + 1 := congrArg Sessions.last hsessions
        rw [slot?_answer_open hanswer] at hopen
        show session.value ≤ u.sessions.last
        rw [hlast]
        split at hopen
        · next hsame =>
            exact Nat.le_of_eq (congrArg SessionId.value (hsame.trans hnumber))
        · exact Nat.le_succ_of_le (h.sessions session hopen)
  | closeSession closed =>
      rw [slot?_answer_close] at hopen
      split at hopen
      · exact absurd rfl hopen
      · exact Nat.le_trans (h.sessions session hopen) (t.last_le_answer _)
  | mechanismInfo mechanism => exact h.sessions session hopen
  | operate used primitive =>
      have hbefore : t.sessions.slot? session ≠ none := fun hnone =>
        hopen ((slot?_operate_eq_none t used session primitive).mpr hnone)
      exact Nat.le_trans (h.sessions session hbefore) (t.last_le_answer (.operate used primitive))

theorem act (h : t.Numbered) (action : Action) : (t.act action).2.Numbered := by
  cases action with
  | store secret => exact h.addPair secret
  | call call => exact h.answer call

/-! ## What is left alone -/

/-- **An open session is changed by calls on it only.** -/
theorem slot?_act (h : t.Numbered) (hopen : t.sessions.slot? session ≠ none)
    (hspares : action.Spares session) :
    (t.act action).2.sessions.slot? session = t.sessions.slot? session := by
  cases action with
  | store secret => exact congrArg (·.slot? session) (sessions_addPair t secret)
  | call call =>
      show (Token.answer call t).2.sessions.slot? session = _
      cases call with
      | openSession =>
          rcases hanswer : Token.answer .openSession t with ⟨code | opened, u⟩
          · rw [(answer_open_error hanswer).1]
          · exact (slot?_answer_open hanswer session).trans
              (if_neg (ne_of_answer_open hanswer (h.sessions session hopen)))
      | closeSession other =>
          exact (slot?_answer_close t other session).trans (if_neg (Ne.symm hspares))
      | mechanismInfo mechanism => rfl
      | operate other primitive => exact slot?_operate (Ne.symm hspares) primitive

/-- **A stored key stays as it is.** -/
theorem get?_act {key : StoredKey} (h : t.Numbered) (hkey : t.keys.get? handle = some key)
    (action : Action) : (t.act action).2.keys.get? handle = some key := by
  cases action with
  | store secret =>
      have hstored : t.keys.get? handle ≠ none := by
        rw [hkey]
        exact nofun
      exact (get?_addPair_of_le (h.keys handle hstored) secret).trans hkey
  | call call => exact (answer_keys call t).1 ▸ hkey

end Numbered

/-! ## The numbers that a run gives -/

/-- Numbers that go up from `n` and do not go past `m` are followed by numbers that go up from `m`. -/
theorem ascending_append {n m : Nat} {given rest : List Nat}
    (hgiven : (n :: given).Pairwise (· < ·)) (hle : ∀ k ∈ n :: given, k ≤ m)
    (hrest : (m :: rest).Pairwise (· < ·)) : (n :: (given ++ rest)).Pairwise (· < ·) := by
  obtain ⟨habove, hrest⟩ := List.pairwise_cons.mp hrest
  rw [← List.cons_append, List.pairwise_append]
  exact ⟨hgiven, hrest, fun k hk l hl => Nat.lt_of_le_of_lt (hle k hk) (habove l hl)⟩

/-- The sessions that an action opens have numbers above the last, up to the last one after it. -/
theorem sessions_act (t : Software ops) (action : Action) :
    let given := (t.act action).1.sessions.map (·.value)
    (t.sessions.last :: given).Pairwise (· < ·)
      ∧ ∀ n ∈ t.sessions.last :: given, n ≤ (t.act action).2.sessions.last := by
  have hnone : ∀ {m : Nat}, t.sessions.last ≤ m →
      (t.sessions.last :: []).Pairwise (· < ·) ∧ ∀ n ∈ t.sessions.last :: [], n ≤ m := by
    intro m hle
    refine ⟨List.pairwise_singleton _ _, fun n hn => ?_⟩
    rw [List.mem_singleton.mp hn]
    exact hle
  cases action with
  | store secret =>
      exact hnone (Nat.le_of_eq (congrArg Sessions.last (sessions_addPair t secret)).symm)
  | call call =>
      have hle := t.last_le_answer call
      cases call with
      | openSession =>
          simp only [act, Event.sessions]
          rcases hanswer : Token.answer .openSession t with ⟨code | session, u⟩
          · rw [hanswer] at hle
            exact hnone hle
          · obtain ⟨rfl, hsessions⟩ := answer_open_ok hanswer
            have hlast : u.sessions.last = t.sessions.last + 1 := congrArg Sessions.last hsessions
            simp [hlast]
      | closeSession session => exact hnone hle
      | mechanismInfo mechanism => exact hnone hle
      | operate session primitive => exact hnone hle

/-- So it is with the handles of the keys that it stores. -/
theorem handles_act (t : Software ops) (action : Action) :
    let given := (t.act action).1.handles.map (·.value)
    (t.lastHandle :: given).Pairwise (· < ·)
      ∧ ∀ n ∈ t.lastHandle :: given, n ≤ (t.act action).2.lastHandle := by
  cases action with
  | store secret =>
      obtain ⟨hprivate, hpublic⟩ := handles_addPair t secret
      simp [act, Event.handles, hprivate, hpublic, lastHandle_addPair]
  | call call =>
      have hlast : (Token.answer call t).2.lastHandle = t.lastHandle := (answer_keys call t).2
      simp [act, Event.handles, hlast]

/-- **The sessions that a run opens have numbers that go up.** -/
theorem ascending_sessions (t : Software ops) (actions : List Action) :
    (t.sessions.last :: ((t.run actions).1.flatMap Event.sessions).map (·.value)).Pairwise
      (· < ·) := by
  induction actions generalizing t with
  | nil => exact List.pairwise_singleton _ _
  | cons action actions ih =>
      obtain ⟨hgiven, hle⟩ := t.sessions_act action
      have hrun := ascending_append hgiven hle (ih (t.act action).2)
      rw [← List.map_append] at hrun
      exact hrun

/-- **The keys that a run stores have numbers that go up.** -/
theorem ascending_handles (t : Software ops) (actions : List Action) :
    (t.lastHandle :: ((t.run actions).1.flatMap Event.handles).map (·.value)).Pairwise
      (· < ·) := by
  induction actions generalizing t with
  | nil => exact List.pairwise_singleton _ _
  | cons action actions ih =>
      obtain ⟨hgiven, hle⟩ := t.handles_act action
      have hrun := ascending_append hgiven hle (ih (t.act action).2)
      rw [← List.map_append] at hrun
      exact hrun

/-- Numbers that go up are all different. -/
theorem nodup_of_ascending {α : Type} {n : Nat} {l : List α} {value : α → Nat}
    (h : (n :: l.map value).Pairwise (· < ·)) : l.Nodup :=
  (List.pairwise_map.mp (List.pairwise_cons.mp h).2).imp fun hlt heq =>
    absurd (congrArg value heq) (Nat.ne_of_lt hlt)

/-! ## The rules -/

/-- The rules that a token keeps, whatever is done to it next. -/
structure Disciplined (t : Software ops) : Prop where
  /-- A start that fails changes nothing. -/
  init_failed : ∀ session mode mechanism handle code u,
    Token.answer (.operate session (.init mode mechanism handle)) t = (.error code, u) → u = t
  /-- A start fails on a session that has an operation, if the token has the mechanism. -/
  init_active : ∀ session op mode mechanism handle,
    t.sessions.slot? session = some (some op) → mechanism.family? ≠ none →
      (Token.answer (.operate session (.init mode mechanism handle)) t).1 = .error .operationActive
  /-- The last call of an operation leaves none, whatever it answers. -/
  ended : ∀ session mode primitive, primitive.Ends mode → t.sessions.slot? session ≠ none →
    (Token.answer (.operate session primitive) t).2.sessions.slot? session = some none
  /-- An update that fails leaves none, either. -/
  update_failed : ∀ session mode data code u, t.sessions.slot? session ≠ none →
    Token.answer (.operate session (.update mode data)) t = (.error code, u) →
      u.sessions.slot? session = some none
  /-- An update that succeeds is one of an operation in its own mode, and changes its digest only. -/
  update_ok : ∀ session mode data u,
    Token.answer (.operate session (.update mode data)) t = (.ok (), u) →
      ∃ op digest, t.sessions.slot? session = some (some op) ∧ op.mode = mode
        ∧ u.sessions.slot? session = some (some { op with digest })
  /-- Calls on a session change no other, whether it is open or not. -/
  others : ∀ session other primitive, session ≠ other →
    (Token.answer (.operate other primitive) t).2.sessions.slot? session
        = t.sessions.slot? session
      ∧ (Token.answer (.closeSession other) t).2.sessions.slot? session
        = t.sessions.slot? session
  /-- Nothing but a call on it changes an open session. -/
  spared : ∀ session action, action.Spares session → t.sessions.slot? session ≠ none →
    (t.act action).2.sessions.slot? session = t.sessions.slot? session
  /-- No call changes the keys. -/
  keys : ∀ call, (Token.answer call t).2.keys = t.keys
  /-- Storing keys changes neither sessions nor keys. -/
  stored : ∀ secret, (t.addPair secret).2.sessions = t.sessions
    ∧ ∀ handle key, t.keys.get? handle = some key →
      (t.addPair secret).2.keys.get? handle = some key

/-- A token that has given its numbers in order keeps the rules. -/
theorem Numbered.disciplined (h : t.Numbered) : t.Disciplined where
  init_failed _ _ _ _ _ _ hanswer := operate_init_error hanswer
  init_active session op mode mechanism handle hslot hmechanism := by
    obtain ⟨family, hfamily⟩ := Option.ne_none_iff_exists'.mp hmechanism
    show (t.init session mode mechanism handle).1 = _
    simp only [init, startOperation, hfamily, hslot]
  ended _ _ _ hends hopen := slot?_operate_of_ends hopen hends
  update_failed session mode data code u hopen hanswer := by
    obtain ⟨op, hslot⟩ := Option.ne_none_iff_exists'.mp hopen
    obtain ⟨op', hafter, hwrites⟩ := operated hslot (.update mode data)
    have hoperate : t.operate session (.update mode data) = (.error code, u) := hanswer
    rw [hoperate] at hafter hwrites
    have hwritten := (hwrites.slot? session).trans (if_pos rfl)
    cases hafter with
    | notFed => exact hwritten
    | ended hends => exact hends.elim
  update_ok session mode data u hanswer := by
    have hoperate : t.operate session (.update mode data) = (.ok (), u) := hanswer
    cases hslot : t.sessions.slot? session with
    | none =>
        simp only [operate, Software.update, hslot] at hoperate
        cases hoperate
    | some op =>
        obtain ⟨op', hafter, hwrites⟩ := operated hslot (.update mode data)
        rw [hoperate] at hafter hwrites
        have hwritten := (hwrites.slot? session).trans (if_pos rfl)
        cases hafter with
        | @fed o _ digest hop => exact ⟨o, digest, by rw [hop], rfl, hwritten⟩
        | ended hends => exact hends.elim
  others session other primitive hne :=
    ⟨slot?_operate hne primitive, (slot?_answer_close t other session).trans (if_neg hne)⟩
  spared _ _ hspares hopen := h.slot?_act hopen hspares
  keys call := (answer_keys call t).1
  stored secret :=
    ⟨sessions_addPair t secret, fun _ _ hkey => h.get?_act hkey (.store secret)⟩

/-- **The token keeps its rules.** Whatever keys were stored and whatever calls were made, with any
    sessions, handles, mechanisms and data: the rules hold of what is done next; the sessions that
    were opened all have different numbers, and so have the keys that were stored; and no more
    sessions are open than may be. -/
theorem discipline (limit : Option Nat) (sessionObjects : Bool) (actions : List Action) :
    let done := (empty limit sessionObjects : Software ops).run actions
    done.2.Disciplined
      ∧ (done.1.flatMap Event.sessions).Nodup
      ∧ (done.1.flatMap Event.handles).Nodup
      ∧ ∀ max, limit = some max → done.2.openSessions ≤ max := by
  intro done
  have hnumbered : done.2.Numbered :=
    run_keeps (fun action _ h => h.act action) (.of_empty limit sessionObjects) actions
  have hlimited : done.2.Limited :=
    run_keeps (fun action _ h => h.act action) (fun _ _ => Nat.zero_le _) actions
  have hlimit : done.2.sessions.limit = limit :=
    run_keeps (P := fun t : Software ops => t.sessions.limit = limit)
      (fun action t h => (limit_act t action).trans h) rfl actions
  refine ⟨hnumbered.disciplined, nodup_of_ascending (ascending_sessions _ actions),
    nodup_of_ascending (ascending_handles _ actions), ?_⟩
  intro max hmax
  exact hlimited max (hlimit.trans hmax)

/-- A token that may have one session open is asked for two, and for another when the first one is
    closed; an operation is started in each. -/
def oneAtATime : List Action :=
  [.store (.ec ⟨1, Nat.one_pos, Secp256k1.one_lt_order⟩), .call .openSession, .call .openSession,
    .call (.operate ⟨1⟩ (.init .sign .ecdsa ⟨1⟩)), .call (.closeSession ⟨1⟩), .call .openSession,
    .call (.operate ⟨2⟩ (.init .sign .ecdsa ⟨1⟩)),
    .store (.ec ⟨2, by decide +kernel, by decide +kernel⟩)]

/-- Two of the three sessions are opened, under different numbers, and one at a time. The operation in
    the last one is not started again, and is ended by a call that is meant for another. -/
theorem discipline_of_oneAtATime :
    let done := (empty (some 1) false : Software .standard).run oneAtATime
    done.1.flatMap Event.sessions = [⟨1⟩, ⟨2⟩]
      ∧ done.1.flatMap Event.handles = [⟨1⟩, ⟨2⟩, ⟨3⟩, ⟨4⟩]
      ∧ done.2.openSessions ≤ 1
      ∧ (Token.answer (.operate ⟨2⟩ (.init .verify .ecdsa ⟨4⟩)) done.2).1 = .error .operationActive
      ∧ (Token.answer (.operate ⟨2⟩ (.verify [] [])) done.2).2.sessions.slot? ⟨2⟩ = some none := by
  intro done
  obtain ⟨hrules, _, _, hlimit⟩ := discipline (some 1) false oneAtATime
  obtain ⟨op, hop⟩ : ∃ op, done.2.sessions.slot? ⟨2⟩ = some (some op) := ⟨_, rfl⟩
  have hopen : done.2.sessions.slot? ⟨2⟩ ≠ none := hop ▸ nofun
  exact ⟨by decide +kernel, by decide +kernel, hlimit 1 rfl,
    hrules.init_active _ op _ _ _ hop nofun, hrules.ended _ .verify _ rfl hopen⟩

end Software

end Cryptoki
