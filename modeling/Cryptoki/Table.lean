/-!
# `Cryptoki.Table` — finite tables

A table is a list of keys with their entries, each key at most once, so its length is the count of
the keys that have an entry.

## Contents
- `Table` — the type, with `empty`.
- `Table.get?`, `Table.insert`, `Table.erase`, `Table.size` — the operations.
- `Table.get?_insert`, `Table.get?_erase` — what a look-up finds after each.
- `Table.size_insert`, `Table.size_erase` — what the count is after each.
-/

namespace Cryptoki

/-- A finite table. -/
structure Table (κ α : Type) where
  entries : List (κ × α)
  /-- No key has two entries. -/
  nodup : (entries.map (·.1)).Nodup
deriving DecidableEq, Repr

namespace Table

variable {κ α : Type}

/-- The table without entries. -/
def empty : Table κ α := ⟨[], List.nodup_nil⟩

/-- The count of entries. -/
def size (t : Table κ α) : Nat := t.entries.length

@[simp] theorem size_empty : (empty : Table κ α).size = 0 := rfl

/-- Removing entries leaves no key with two. -/
theorem nodup_filter (t : Table κ α) (p : κ × α → Bool) :
    ((t.entries.filter p).map (·.1)).Nodup :=
  t.nodup.sublist (List.filter_sublist.map _)

variable [DecidableEq κ]

/-- The entry of a key. -/
def get? (t : Table κ α) (k : κ) : Option α := (t.entries.find? (·.1 = k)).map (·.2)

/-- The table without the entry of a key. -/
def erase (t : Table κ α) (k : κ) : Table κ α :=
  ⟨t.entries.filter (·.1 ≠ k), t.nodup_filter _⟩

/-- A removed key has no entry. -/
theorem not_mem_erase (t : Table κ α) (k : κ) : k ∉ (t.erase k).entries.map (·.1) := by
  simp [erase]

/-- The table with the entry of a key, in place of any it had. -/
def insert (t : Table κ α) (k : κ) (a : α) : Table κ α :=
  ⟨(k, a) :: (t.erase k).entries, List.nodup_cons.mpr ⟨t.not_mem_erase k, (t.erase k).nodup⟩⟩

/-- Whether a key has an entry. -/
def contains (t : Table κ α) (k : κ) : Bool := (t.get? k).isSome

/-! ## Look-ups -/

@[simp] theorem get?_empty (k : κ) : (empty : Table κ α).get? k = none := rfl

theorem get?_erase (t : Table κ α) (k j : κ) :
    (t.erase k).get? j = if j = k then none else t.get? j := by
  simp only [erase, get?, List.find?_filter]
  split
  · next h =>
    subst h
    rw [List.find?_eq_none.mpr]
    · rfl
    · simp
  · next h =>
    congr 2
    funext e
    by_cases he : e.1 = j
    · simp [he, h]
    · simp [he]

theorem get?_insert (t : Table κ α) (k j : κ) (a : α) :
    (t.insert k a).get? j = if j = k then some a else t.get? j := by
  by_cases h : j = k
  · subst h; simp [insert, get?]
  · have := get?_erase t k j
    simp only [h, if_false] at this ⊢
    rw [← this]
    simp only [insert, get?, List.find?_cons]
    rw [decide_eq_false (fun hk : k = j => h hk.symm)]

/-- A key has an entry exactly if it is listed. -/
theorem contains_iff (t : Table κ α) (k : κ) : t.contains k = true ↔ k ∈ t.entries.map (·.1) := by
  simp [contains, get?]

/-! ## Counts -/

/-- Of keys that differ from each other, at most one is removed. -/
theorem length_filter_ne (entries : List (κ × α)) (k : κ) (h : (entries.map (·.1)).Nodup) :
    (entries.filter (·.1 ≠ k)).length + (if k ∈ entries.map (·.1) then 1 else 0)
      = entries.length := by
  induction entries with
  | nil => rfl
  | cons e entries ih =>
    rw [List.map_cons, List.nodup_cons] at h
    have ih := ih h.2
    by_cases he : e.1 = k
    · subst he
      rw [if_neg h.1] at ih
      rw [List.filter_cons_of_neg (by simp), if_pos (by simp), List.length_cons]
      exact congrArg (· + 1) ih
    · have hk : k ∈ (e :: entries).map (·.1) ↔ k ∈ entries.map (·.1) := by
        simp [Ne.symm he]
      rw [List.filter_cons_of_pos (by simpa using he), List.length_cons, List.length_cons, ← ih]
      simp only [hk]
      omega

/-- Removing a key takes one from the count if it had an entry. -/
theorem size_erase (t : Table κ α) (k : κ) :
    (t.erase k).size + (if t.contains k then 1 else 0) = t.size := by
  have h := length_filter_ne t.entries k t.nodup
  simpa only [size, erase, contains_iff] using h

/-- A key that had no entry adds one to the count. -/
theorem size_insert (t : Table κ α) (k : κ) (a : α) :
    (t.insert k a).size = if t.contains k then t.size else t.size + 1 := by
  have h := t.size_erase k
  have hs : (t.insert k a).size = (t.erase k).size + 1 := rfl
  split <;> simp_all

end Table

end Cryptoki
