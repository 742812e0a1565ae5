import BeanStream.Table
import Mathlib.Data.List.Nodup

/-!
# The entries of a table

The entries of a table are exactly what the map has for its keys (`Table.mem_entries_iff`), and so
are its values (`Table.mem_values_iff`): since every key is listed once, none of them is hidden by
an earlier one. Giving a new key a value adds an entry at the end; giving one to a listed key leaves
the entries in their places (`Table.map_entries_set`).
-/

namespace BeanStream

namespace Table

variable {κ α : Type} [DecidableEq κ]

/-- What is listed for a key is its value. -/
theorem mem_entries_iff {t : Table κ α} {k : κ} {v : α} :
    (k, v) ∈ t.entries ↔ t.get? k = some v := by
  constructor
  · intro listed
    obtain ⟨w, hw⟩ := Option.isSome_iff_exists.1
      (contains_iff_mem_keys.2 (List.mem_map.2 ⟨_, listed, rfl⟩))
    -- the key is listed once, so the entry that is found is this one
    rw [get?, Option.map_eq_some_iff] at hw ⊢
    obtain ⟨⟨k', v'⟩, found, -⟩ := hw
    have hk : k' = k := by simpa using List.find?_some found
    have same : (k', v') = (k, v) :=
      List.inj_on_of_nodup_map t.nodup (List.mem_of_find?_eq_some found) listed hk
    exact ⟨(k, v), same ▸ found, rfl⟩
  · intro h
    rw [get?, Option.map_eq_some_iff] at h
    obtain ⟨⟨k', v'⟩, found, rfl⟩ := h
    obtain rfl : k' = k := by simpa using List.find?_some found
    exact List.mem_of_find?_eq_some found

/-- The values of a table are the values of its keys. -/
theorem mem_values_iff {t : Table κ α} {v : α} : v ∈ t.values ↔ ∃ k, t.get? k = some v := by
  simp only [values, List.mem_map, Prod.exists, exists_eq_right, mem_entries_iff]

/-- A new key is listed behind the others. -/
theorem entries_set_of_get?_eq_none {t : Table κ α} {k : κ} (h : t.get? k = none) (v : α) :
    (t.set k v).entries = t.entries ++ [(k, v)] := by
  rw [set, dif_neg (get?_eq_none_iff.1 h)]

/-- Of a key that is listed already, nothing changes but what depends on its value. -/
theorem map_entries_set {β : Type} {t : Table κ α} {k : κ} {v w : α} (h : t.get? k = some w)
    (f : α → β) (same : f v = f w) :
    (t.set k v).entries.map (fun e => (e.1, f e.2)) = t.entries.map fun e => (e.1, f e.2) := by
  have listed : k ∈ t.keys := List.mem_map.2 ⟨_, mem_entries_iff.2 h, rfl⟩
  rw [set, dif_pos listed, modify, List.map_map]
  refine List.map_congr_left fun e mem => ?_
  obtain ⟨k', w'⟩ := e
  by_cases own : k' = k
  · subst own
    obtain rfl : w = w' := Option.some.inj (h.symm.trans (mem_entries_iff.1 mem))
    simp [same]
  · simp [own]

end Table

end BeanStream
