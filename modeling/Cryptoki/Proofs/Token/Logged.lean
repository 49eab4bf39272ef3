import Cryptoki.Token.Recorded

/-!
# `Cryptoki.Proofs.Token.Logged` — what the log of a token says

The log says which sessions were opened and which of them somebody has asked to close, so what is
expected of a token about its sessions can be said without looking inside it.

## Contents
- `Token.Event.Closes` — the calls that close a session.
- `Logged.Since` — a property of all events since some state.
- `Token.Reached` — the states that calls lead to.
- `Token.stillOpen` — the sessions that were opened and not asked to close since.
- `Token.NoReuse` — a session that is opened is none of those.
- `Token.failedCloses` — how many calls that close a session have failed.
-/

namespace Cryptoki

/-- The call closes a session. -/
def Token.Event.Closes (event : Token.Event) : Prop :=
  ∃ session, event.call = .closeSession session

/-- A primitive is not a call that closes. -/
theorem Token.Event.not_closes_of_operate {event : Token.Event} {session : SessionId}
    {primitive : Primitive} (h : event.call = .operate session primitive) : ¬ event.Closes := by
  rintro ⟨other, hclose⟩
  cases h.symm.trans hclose

variable {τ : Type}

namespace Logged

/-- All events since some state have a property. -/
def Since (P : Token.Event → Prop) (t u : Logged τ) : Prop :=
  ∃ events, u.log = events ++ t.log ∧ ∀ event ∈ events, P event

namespace Since

variable {P Q : Token.Event → Prop} {t u v : Logged τ}

theorem refl (t : Logged τ) : Since P t t := ⟨[], rfl, fun _ h => nomatch h⟩

theorem trans (h : Since P t u) (h' : Since P u v) : Since P t v := by
  obtain ⟨events, hlog, hevents⟩ := h
  obtain ⟨events', hlog', hevents'⟩ := h'
  refine ⟨events' ++ events, ?_, ?_⟩
  · rw [hlog', hlog, List.append_assoc]
  · intro event hevent
    rcases List.mem_append.mp hevent with hevent | hevent
    · exact hevents' event hevent
    · exact hevents event hevent

theorem mono (h : Since P t u) (himp : ∀ event, P event → Q event) : Since Q t u := by
  obtain ⟨events, hlog, hevents⟩ := h
  exact ⟨events, hlog, fun event hevent => himp event (hevents event hevent)⟩

end Since

end Logged

/-! ## Answers -/

variable [Token τ]

namespace Logged

/-- The answer is the token's own, and it is in the log afterwards. -/
theorem answer_eq {call : Call} {t u : Logged τ} {result : Except ReturnCode call.Result}
    (h : Token.answer call t = (result, u)) :
    Token.answer call t.token = (result, u.token) ∧ u.log = ⟨call, result⟩ :: t.log := by
  obtain ⟨rfl, rfl⟩ := Prod.mk.inj h
  exact ⟨rfl, rfl⟩

/-- The answer of the token is that of the token with its log. -/
theorem answer_of {call : Call} {t : Logged τ} {u : τ} {result : Except ReturnCode call.Result}
    (h : Token.answer call t.token = (result, u)) :
    Token.answer call t = (result, ⟨u, ⟨call, result⟩ :: t.log⟩) := by
  obtain ⟨rfl, rfl⟩ := Prod.mk.inj h
  rfl

theorem Since.answer {P : Token.Event → Prop} {t u v : Logged τ} {call : Call}
    {result : Except ReturnCode call.Result} (h : Since P t u)
    (hanswer : Token.answer call u = (result, v)) (hP : P ⟨call, result⟩) : Since P t v := by
  refine h.trans ⟨[⟨call, result⟩], (answer_eq hanswer).2, ?_⟩
  intro event hevent
  rw [List.mem_singleton.mp hevent]
  exact hP

end Logged

namespace Token

/-- The states that calls lead to. -/
inductive Reached (t : τ) : τ → Prop
  | start : Reached t t
  | call {u : τ} (h : Reached t u) (c : Call) : Reached t (Token.answer c u).2

theorem Reached.answer {t u v : τ} {c : Call} {result : Except ReturnCode c.Result}
    (h : Reached t u) (hanswer : Token.answer c u = (result, v)) : Reached t v := by
  have hcall := h.call c
  rw [hanswer] at hcall
  exact hcall

theorem Reached.trans {t u v : τ} (h : Reached t u) (h' : Reached u v) : Reached t v := by
  induction h' with
  | start => exact h
  | call _ c ih => exact ih.call c

/-- What every call keeps holds wherever calls lead. -/
theorem Reached.keeps {P : τ → Prop} {t u : τ} (h : Reached t u)
    (hcall : ∀ c t, P t → P (Token.answer c t).2) (ht : P t) : P u := by
  induction h with
  | start => exact ht
  | call _ c ih => exact hcall c _ ih

/-- Calls are added to the log, and nothing is taken off it. -/
theorem Reached.log {t u : Logged τ} (h : Reached t u) : Logged.Since (fun _ => True) t u :=
  h.keeps (fun _ _ hsince => hsince.answer rfl trivial) (.refl t)

/-- A call on the way is one of the events. -/
theorem Reached.event {P : Event → Prop} {t u v w : Logged τ} {c : Call}
    {result : Except ReturnCode c.Result} (hbefore : Reached t u)
    (hanswer : Token.answer c u = (result, v)) (hafter : Reached v w)
    (hsince : Logged.Since P t w) : P ⟨c, result⟩ := by
  obtain ⟨before, hbefore, _⟩ := hbefore.log
  obtain ⟨after, hafter, _⟩ := hafter.log
  obtain ⟨events, hlog, hevents⟩ := hsince
  apply hevents
  have hsame : events ++ t.log = (after ++ ⟨c, result⟩ :: before) ++ t.log := by
    rw [← hlog, hafter, (Logged.answer_eq hanswer).2, hbefore, List.append_assoc, List.cons_append]
  rw [List.append_cancel_right hsame]
  exact List.mem_append_right _ List.mem_cons_self

/-- The sessions that were opened, by a log that has its last event first, and that nobody has asked
    to close since, with success or without. -/
def stillOpen : List Event → List SessionId
  | [] => []
  | ⟨.openSession, .ok session⟩ :: log => session :: stillOpen log
  | ⟨.closeSession session, _⟩ :: log => (stillOpen log).filter (· ≠ session)
  | _ :: log => stillOpen log

/-- A session stays open until somebody asks to close it. -/
theorem mem_stillOpen_cons {log : List Event} {session : SessionId} {call : Call}
    {result : Except ReturnCode call.Result} (h : session ∈ stillOpen log)
    (hcall : call ≠ .closeSession session) : session ∈ stillOpen (⟨call, result⟩ :: log) := by
  cases call with
  | openSession =>
      cases result with
      | ok opened => exact List.mem_cons_of_mem opened h
      | error code => exact h
  | closeSession closed =>
      have hne : session ≠ closed := fun heq => hcall (heq ▸ rfl)
      exact List.mem_filter.mpr ⟨h, by simpa using hne⟩
  | mechanismInfo mechanism => exact h
  | operate used primitive => exact h

/-- Only a session that is opened is one more. -/
theorem mem_of_mem_stillOpen_cons {log : List Event} {session : SessionId} {event : Event}
    (h : session ∈ stillOpen (event :: log)) :
    session ∈ stillOpen log ∨ event = ⟨.openSession, .ok session⟩ := by
  obtain ⟨call, result⟩ := event
  cases call with
  | openSession =>
      cases result with
      | ok opened =>
          rcases List.mem_cons.mp h with rfl | h
          · exact .inr rfl
          · exact .inl h
      | error code => exact .inl h
  | closeSession closed => exact .inl (List.mem_filter.mp h).1
  | mechanismInfo mechanism => exact .inl h
  | operate used primitive => exact .inl h

/-- How many calls that close a session have failed. -/
def failedCloses : List Event → Nat
  | [] => 0
  | ⟨.closeSession _, .error _⟩ :: log => failedCloses log + 1
  | _ :: log => failedCloses log

theorem failedCloses_le_cons (event : Event) (log : List Event) :
    failedCloses log ≤ failedCloses (event :: log) := by
  obtain ⟨call, result⟩ := event
  cases call with
  | closeSession session =>
      cases result with
      | ok u => exact Nat.le_refl _
      | error code => exact Nat.le_succ _
  | openSession => exact Nat.le_refl _
  | mechanismInfo mechanism => exact Nat.le_refl _
  | operate session primitive => exact Nat.le_refl _

/-- No session that the token opens is still open. -/
def NoReuse (t : τ) : Prop :=
  ∀ (u : Logged τ), Reached (Logged.start t) u → ∀ (session : SessionId) (v : Logged τ),
    Token.answer .openSession u = (.ok session, v) → session ∉ stillOpen u.log

end Token

end Cryptoki
