import Cryptoki.Table
import Cryptoki.Token

/-!
# `Cryptoki.Token.Sessions` — the open sessions of a token

A token numbers its sessions one after the other and does not run out of numbers, so none is ever
given twice. It may limit how many sessions are open at once. Each open session has a slot for one
operation.

## Contents
- `Sessions` — the open sessions with their slots.
- `Sessions.openNext`, `Sessions.close` — opening and closing.
- `Sessions.slot?`, `Sessions.setSlot` — reading and writing a slot.
- `Sessions.slot?_setSlot`, `Sessions.slot?_close` — what is read after writing and after closing.
- `Sessions.size_setSlot`, `Sessions.size_close` — the count of open sessions after each.
-/

namespace Cryptoki

/-- The open sessions of a token, with operations of type `α`. -/
structure Sessions (α : Type) where
  /-- The slot of each open session. -/
  slots : Table SessionId (Option α)
  /-- The last number given to a session. -/
  last : Nat
  /-- The sessions that may be open at once, if they are limited. -/
  limit : Option Nat

namespace Sessions

variable {α : Type}

/-- No session is open, and none was before. -/
def empty (limit : Option Nat) : Sessions α := ⟨.empty, 0, limit⟩

/-- The count of open sessions. -/
def size (s : Sessions α) : Nat := s.slots.size

/-- The slot of a session, if it is open. -/
def slot? (s : Sessions α) (session : SessionId) : Option (Option α) := s.slots.get? session

/-- The sessions with another operation, or none, in a slot. -/
def setSlot (s : Sessions α) (session : SessionId) (op : Option α) : Sessions α :=
  { s with slots := s.slots.insert session op }

/-- Opens a session under the next number, with an empty slot. -/
def openNext (s : Sessions α) : Except ReturnCode SessionId × Sessions α :=
  if s.limit.any (· ≤ s.size) then (.error .sessionCount, s)
  else
    let session := ⟨s.last + 1⟩
    (.ok session, { s.setSlot session none with last := s.last + 1 })

/-- Closes a session, with its operation if it has one. -/
def close (s : Sessions α) (session : SessionId) : Except ReturnCode Unit × Sessions α :=
  match s.slot? session with
  | some _ => (.ok (), { s with slots := s.slots.erase session })
  | none => (.error .sessionHandleInvalid, s)

@[simp] theorem slot?_empty (limit : Option Nat) (session : SessionId) :
    (empty limit : Sessions α).slot? session = none := rfl

/-- Writing a slot changes no other. -/
theorem slot?_setSlot (s : Sessions α) (a b : SessionId) (op : Option α) :
    (s.setSlot a op).slot? b = if b = a then some op else s.slot? b :=
  Table.get?_insert s.slots a b op

/-- A closed session has no slot, and closing changes no other. -/
theorem slot?_close (s : Sessions α) (a b : SessionId) :
    (s.close a).2.slot? b = if b = a then none else s.slot? b := by
  unfold close
  split
  · exact Table.get?_erase s.slots a b
  · next h =>
    split
    · next hba => rw [hba, h]
    · rfl

/-- Writing the slot of an open session opens none. -/
theorem size_setSlot {s : Sessions α} {session : SessionId} (op : Option α)
    (h : s.slot? session ≠ none) : (s.setSlot session op).size = s.size := by
  have hc : s.slots.contains session = true := Option.isSome_iff_ne_none.mpr h
  exact (Table.size_insert s.slots session op).trans (if_pos hc)

/-- Closing an open session takes one from the count. -/
theorem size_close {s : Sessions α} {session : SessionId} (h : s.slot? session ≠ none) :
    (s.close session).2.size + 1 = s.size := by
  have hc : s.slots.contains session = true := Option.isSome_iff_ne_none.mpr h
  have he := Table.size_erase s.slots session
  rw [if_pos hc] at he
  obtain ⟨op, hop⟩ := Option.ne_none_iff_exists'.mp h
  rw [close, hop]
  exact he

end Sessions

end Cryptoki
