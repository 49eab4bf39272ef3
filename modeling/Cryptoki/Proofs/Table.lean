import Cryptoki.Table

/-!
# `Cryptoki.Proofs.Table` — the entries of a table, one key set apart

Counting over a table goes by one key at a time: its entry, if it has one, and the entries of all
other keys. Both writing and removing a key keep the second part as it is.

## Contents
- `Table.get?_insert_self`, `Table.get?_insert_of_ne`, `Table.get?_erase_self`,
  `Table.get?_erase_of_ne` — look-ups of one key and of another.
- `Table.insert_insert` — an entry in place of another.
- `Table.values` — the entries without their keys.
- `Table.values_perm` — one value set apart from the others.
- `Table.values_erase_of_none` — there is nothing to set apart for a key without an entry.
- `Table.size_of_some`, `Table.size_of_none` — the counts to go with it.
- `Table.mem_values` — the values are what look-ups find.
-/

namespace Cryptoki.Table

variable {κ α : Type} {t : Table κ α} {k : κ} {a : α}

/-- The entries without their keys. -/
def values (t : Table κ α) : List α := t.entries.map (·.2)

theorem length_values (t : Table κ α) : t.values.length = t.size := List.length_map _

@[simp] theorem values_empty : (empty : Table κ α).values = [] := rfl

variable [DecidableEq κ]

theorem get?_insert_self (t : Table κ α) (k : κ) (a : α) : (t.insert k a).get? k = some a :=
  (t.get?_insert k k a).trans (if_pos rfl)

theorem get?_insert_of_ne {j : κ} (h : j ≠ k) (t : Table κ α) (a : α) :
    (t.insert k a).get? j = t.get? j :=
  (t.get?_insert k j a).trans (if_neg h)

theorem get?_erase_self (t : Table κ α) (k : κ) : (t.erase k).get? k = none :=
  (t.get?_erase k k).trans (if_pos rfl)

theorem get?_erase_of_ne {j : κ} (h : j ≠ k) (t : Table κ α) : (t.erase k).get? j = t.get? j :=
  (t.get?_erase k j).trans (if_neg h)

/-- Of two entries for one key the second stays. -/
theorem insert_insert (t : Table κ α) (k : κ) (a b : α) :
    (t.insert k a).insert k b = t.insert k b := by
  simp only [insert, erase, mk.injEq]
  simp

theorem values_insert (t : Table κ α) (k : κ) (a : α) :
    (t.insert k a).values = a :: (t.erase k).values := rfl

/-- Of keys that differ from each other, removing one that is not there changes nothing. -/
theorem filter_ne_of_notMem {entries : List (κ × α)} (h : k ∉ entries.map (·.1)) :
    entries.filter (·.1 ≠ k) = entries := by
  apply List.filter_eq_self.mpr
  intro e he
  have hne : e.1 ≠ k := fun hk => h (hk ▸ List.mem_map_of_mem he)
  simpa using hne

/-- The entry of a key, and the entries of all other keys. -/
theorem entries_perm (h : t.get? k = some a) :
    t.entries.Perm ((k, a) :: (t.erase k).entries) := by
  have hnodup := t.nodup
  simp only [get?, erase] at h ⊢
  generalize t.entries = entries at h hnodup ⊢
  -- the first entry is the key's own, and the only one, or it stays
  induction entries with
  | nil => simp at h
  | cons e entries ih =>
      rw [List.map_cons, List.nodup_cons] at hnodup
      by_cases he : e.1 = k
      · have ha : e.2 = a := by simpa [he] using h
        obtain ⟨j, b⟩ := e
        subst he ha
        rw [List.filter_cons_of_neg (by simp), filter_ne_of_notMem hnodup.1]
      · rw [List.find?_cons_of_neg (by simpa using he)] at h
        rw [List.filter_cons_of_pos (by simpa using he)]
        exact ((ih h hnodup.2).cons e).trans (.swap _ _ _)

theorem values_perm (h : t.get? k = some a) : t.values.Perm (a :: (t.erase k).values) :=
  (entries_perm h).map _

theorem values_erase_of_none (h : t.get? k = none) : (t.erase k).values = t.values := by
  have hk : k ∉ t.entries.map (·.1) := by
    intro hk
    have hc := (t.contains_iff k).mpr hk
    rw [contains, h] at hc
    exact absurd hc (by simp)
  exact congrArg (List.map (·.2)) (filter_ne_of_notMem hk)

theorem size_of_some (h : t.get? k = some a) : t.size = (t.erase k).size + 1 :=
  (entries_perm h).length_eq

theorem size_of_none (h : t.get? k = none) : t.size = (t.erase k).size := by
  rw [← length_values, ← length_values, values_erase_of_none h]

theorem mem_values_insert {b : α} (h : b ∈ (t.insert k a).values) : b = a ∨ b ∈ t.values := by
  rcases List.mem_cons.mp h with rfl | h
  · exact .inl rfl
  · exact .inr ((List.filter_sublist.map _).subset h)

theorem mem_values_erase (h : a ∈ (t.erase k).values) : a ∈ t.values :=
  (List.filter_sublist.map _).subset h

/-- The values are what look-ups find. -/
theorem mem_values : a ∈ t.values ↔ ∃ k, t.get? k = some a := by
  constructor
  · intro h
    obtain ⟨⟨k, b⟩, he, rfl⟩ := List.mem_map.mp h
    have hc := (t.contains_iff k).mpr (List.mem_map_of_mem he)
    obtain ⟨c, hget⟩ := Option.isSome_iff_exists.mp hc
    refine ⟨k, ?_⟩
    rcases List.mem_cons.mp ((entries_perm hget).mem_iff.mp he) with hkc | hmem
    · rw [hget, (Prod.mk.inj hkc).2]
    · exact absurd (List.mem_map_of_mem hmem) (t.not_mem_erase k)
  · rintro ⟨k, h⟩
    exact (values_perm h).mem_iff.mpr List.mem_cons_self

end Cryptoki.Table
