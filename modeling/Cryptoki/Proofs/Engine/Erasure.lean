import Cryptoki.Proofs.Engine.Mirror
import Cryptoki.Proofs.Token.Logged

/-!
# `Cryptoki.Proofs.Engine.Erasure` — engines do not see the log

An engine over a token that remembers its answers does what it does over the token itself: it answers
the same, ends in the same state, and leaves the same pool. So what is said of calls that a log shows
is said of the calls that the token itself is asked.

## Contents
- `Pool.erase` — a pool without the log of its token.
- `Mirror.erasing` — a pool is like itself without the log.
- `Engine.handle_erase` — every call of an engine.
-/

namespace Cryptoki

variable {τ : Type} [Token τ]

/-- The pool, without the log of its token. -/
def Pool.erase {τ : Type} (p : Pool (Logged τ)) : Pool τ := ⟨p.config, p.token.token, p.idle, p.opened⟩

variable (p : Pool (Logged τ))

theorem Pool.acquire_erase : p.erase.acquire = (p.acquire.1, p.acquire.2.erase) := by
  cases hidle : p.idle with
  | cons session idle =>
      rw [acquire_of_idle hidle, acquire_of_idle (p := p.erase) hidle]
      rfl
  | nil =>
      by_cases hroom : p.opened < p.config.maxSessions
      · cases hopen : Token.answer .openSession p.token.token with
        | mk result t =>
            rw [acquire_of_room hidle hroom (Logged.answer_of hopen),
              acquire_of_room (p := p.erase) hidle hroom hopen]
            cases result <;> rfl
      · have hfull := Nat.le_of_not_lt hroom
        rw [acquire_of_full hidle hfull, acquire_of_full (p := p.erase) hidle hfull]
        rfl

theorem Lease.close_erase (lease : Lease) : lease.close p.erase = (lease.close p).erase := by
  unfold close
  split <;> rfl

/-- A pool is like itself without the log. -/
def Mirror.erasing : Mirror (Logged τ) τ where
  idle p p' := p' = p.erase
  held lease p lease' p' := lease' = lease ∧ p' = p.erase
  Excused _ := False
  active := fun ⟨hlease, _⟩ => congrArg _ hlease
  ends := by
    -- whether a session owns objects does not depend on the log either
    rintro lease p _ _ ⟨rfl, rfl⟩
    rfl
  acquire := by
    rintro p _ rfl
    rw [Pool.acquire_erase]
    rcases p.acquire with ⟨err | lease, q⟩
    · exact .failed rfl
    · exact .obtained ⟨rfl, rfl⟩
  operate := by
    rintro lease p _ _ primitive ⟨rfl, rfl⟩
    exact ⟨rfl, rfl, rfl⟩
  close := by
    rintro lease p _ _ ⟨rfl, rfl⟩
    exact Lease.close_erase _ _
  discard := by
    rintro lease p _ _ ⟨rfl, rfl⟩
    rfl
  asked := by
    rintro p _ mechanism rfl
    exact ⟨rfl, rfl⟩
  askedHeld := by
    rintro lease p _ _ mechanism ⟨rfl, rfl⟩
    exact ⟨rfl, rfl, rfl⟩

/-- An engine over the pool is its own twin over the pool without the log, and has no other. -/
theorem Mirror.erasing_twins {e e' : Engine} {p' : Pool τ} :
    (erasing : Mirror (Logged τ) τ).Twins e p e' p' ↔ e' = e ∧ p' = p.erase := by
  constructor
  · rintro ⟨hleases⟩
    cases hleases with
    | none hidle => exact ⟨rfl, hidle⟩
    | some hheld =>
        obtain ⟨rfl, rfl⟩ := hheld
        exact ⟨rfl, rfl⟩
  · rintro ⟨rfl, rfl⟩
    obtain ⟨_, _, _, l, _, _⟩ := e'
    cases l with
    | none => exact .mk (.none rfl)
    | some lease => exact .mk (.some ⟨rfl, rfl⟩)

/-- **Engines do not see the log**: whatever an engine is asked for, it does over the token with its
    log what it does over the token. -/
theorem Engine.handle_erase (e : Engine) (request : Request) :
    e.handle request p.erase
      = ((e.handle request p).1, (e.handle request p).2.1, (e.handle request p).2.2.erase) := by
  have hagree := Mirror.handle ((Mirror.erasing_twins (e := e) p).mpr ⟨rfl, rfl⟩) request
  generalize e.handle request p = out at hagree ⊢
  generalize e.handle request p.erase = out' at hagree ⊢
  cases hagree with
  | excused herr => exact herr.elim
  | same htwins =>
      obtain ⟨rfl, rfl⟩ := (Mirror.erasing_twins _).mp htwins
      rfl

end Cryptoki
