/-!
# Tables

A finite map that lists its keys in the order of their first insertion. Every key is listed
once, which the type guarantees; `get?` is the map itself, and each operation is
characterised by what it does to `get?`: **a write is seen at its own key only**
(`get?_set`), and **an erased key is gone, all others stay** (`get?_erase`).

The operations that fill a vacant key take the new value as a **computation**, which runs
exactly if the key is vacant (`tryInsertM`, `getOrInsertM`).
-/

namespace BeanStream

/-- A finite map from `κ` to `α`. -/
structure Table (κ α : Type) where
  /-- The keys with their values, in the order of first insertion. -/
  entries : List (κ × α)
  /-- Every key is listed once. -/
  nodup : (entries.map Prod.fst).Nodup := by simp

namespace Table

variable {κ α : Type} [DecidableEq κ]

/-! ### Views -/

/-- The value of a key. -/
def get? (t : Table κ α) (k : κ) : Option α := (t.entries.find? (·.1 = k)).map Prod.snd

/-- Whether a key has a value. -/
def contains (t : Table κ α) (k : κ) : Bool := (t.get? k).isSome

/-- The keys, in the order of first insertion. -/
def keys (t : Table κ α) : List κ := t.entries.map Prod.fst

/-- The values, in the order of their keys. -/
def values (t : Table κ α) : List α := t.entries.map Prod.snd

/-- How many keys have a value. -/
def size (t : Table κ α) : Nat := t.entries.length

/-- Whether no key has a value. -/
def isEmpty (t : Table κ α) : Bool := t.entries.isEmpty

private theorem find?_eq_none_iff {l : List (κ × α)} {k : κ} :
    l.find? (·.1 = k) = none ↔ k ∉ l.map Prod.fst := by
  simp only [List.find?_eq_none, List.mem_map, decide_eq_true_eq]
  exact ⟨fun h ⟨e, he, hk⟩ => h e he hk, fun h e he hk => h ⟨e, he, hk⟩⟩

/-- A key has a value exactly if it is listed. -/
theorem contains_iff_mem_keys {t : Table κ α} {k : κ} : t.contains k = true ↔ k ∈ t.keys := by
  rw [contains, get?, Option.isSome_map, Option.isSome_iff_ne_none, Ne, find?_eq_none_iff,
    Classical.not_not, keys]

/-- A key without a value is not listed. -/
theorem get?_eq_none_iff {t : Table κ α} {k : κ} : t.get? k = none ↔ k ∉ t.keys := by
  rw [get?, Option.map_eq_none_iff, find?_eq_none_iff, keys]

/-! ### Updates -/

/-- No key has a value. -/
def empty : Table κ α := { entries := [] }

/-- Changes the value of a listed key, in its place. -/
def modify (t : Table κ α) (k : κ) (f : α → α) : Table κ α where
  entries := t.entries.map fun e => if e.1 = k then (e.1, f e.2) else e
  nodup := by
    have h : (t.entries.map fun e => if e.1 = k then (e.1, f e.2) else e).map Prod.fst
        = t.entries.map Prod.fst := by
      rw [List.map_map]
      apply List.map_congr_left
      intro e _
      simp only [Function.comp]
      split <;> rfl
    rw [h]
    exact t.nodup

/-- Gives a key a value: in its place if it is listed, else at the end. -/
def set (t : Table κ α) (k : κ) (v : α) : Table κ α :=
  if h : k ∈ t.keys then t.modify k fun _ => v
  else
    { entries := t.entries ++ [(k, v)]
      nodup := by
        rw [List.map_append, List.nodup_append]
        refine ⟨t.nodup, by simp, ?_⟩
        intro a ha b hb
        simp only [List.map_cons, List.map_nil, List.mem_singleton] at hb
        rintro rfl
        exact h (hb ▸ ha) }

/-- Gives a key a value, and returns the one it had. -/
def insert (t : Table κ α) (k : κ) (v : α) : Option α × Table κ α := (t.get? k, t.set k v)

/-- Takes a key away, if it is listed. -/
def erase (t : Table κ α) (k : κ) : Table κ α where
  entries := t.entries.filter (·.1 ≠ k)
  nodup := (List.filter_sublist.map Prod.fst).nodup t.nodup

/-- Takes a key away, and returns the value it had. -/
def remove (t : Table κ α) (k : κ) : Option α × Table κ α := (t.get? k, t.erase k)

/-- Fills a vacant key with the value that `make` computes; `make` runs exactly then. The
answer is whether the key was filled. -/
def tryInsertM {μ : Type → Type} [Monad μ] (t : Table κ α) (k : κ) (make : μ α) :
    μ (Bool × Table κ α) :=
  if t.contains k then pure (false, t)
  else do
    let v ← make
    pure (true, t.set k v)

/-- The value of a key, after a vacant key was filled with the value that `make` computes;
`make` runs exactly then. -/
def getOrInsertM {μ : Type → Type} [Monad μ] (t : Table κ α) (k : κ) (make : μ α) :
    μ (α × Table κ α) :=
  match t.get? k with
  | some v => pure (v, t)
  | none => do
    let v ← make
    pure (v, t.set k v)

/-! ### What the updates do to the map -/

@[simp] theorem get?_empty (k : κ) : (empty : Table κ α).get? k = none := rfl

/-- A change is seen at its own key only. -/
theorem get?_modify (t : Table κ α) (k k' : κ) (f : α → α) :
    (t.modify k f).get? k' = if k' = k then (t.get? k').map f else t.get? k' := by
  simp only [get?, modify]
  induction t.entries with
  | nil => simp
  | cons e es ih =>
    simp only [List.map_cons]
    by_cases he : e.1 = k
    · by_cases hk : k' = k
      · simp [he, hk]
      · have h1 : ¬ k = k' := fun h => hk h.symm
        simpa [he, hk, h1] using ih
    · by_cases hk : e.1 = k'
      · have h1 : ¬ k' = k := fun h => he (by rw [hk, h])
        simp [hk, h1]
      · simp only [if_neg he, List.find?_cons, hk, decide_false]
        exact ih

/-- A write is seen at its own key only. -/
theorem get?_set (t : Table κ α) (k k' : κ) (v : α) :
    (t.set k v).get? k' = if k' = k then some v else t.get? k' := by
  unfold set
  split
  · next h =>
    rw [get?_modify]
    by_cases hk : k' = k
    · subst hk
      obtain ⟨w, hw⟩ := Option.ne_none_iff_exists'.1
        (fun hn => (get?_eq_none_iff.1 hn) h)
      simp [hw]
    · simp [hk]
  · next h =>
    have hn : t.entries.find? (·.1 = k) = none := find?_eq_none_iff.2 h
    simp only [get?, List.find?_append]
    by_cases hk : k' = k
    · subst hk
      simp [hn]
    · have hk' : ¬ k = k' := fun h => hk h.symm
      simp [hk, hk']

/-- An erased key is gone, all others stay. -/
theorem get?_erase (t : Table κ α) (k k' : κ) :
    (t.erase k).get? k' = if k' = k then none else t.get? k' := by
  simp only [get?, erase]
  induction t.entries with
  | nil => simp
  | cons e es ih =>
    by_cases he : e.1 = k
    · by_cases hk : k' = k
      · subst hk
        simp [he]
      · have h1 : ¬ k = k' := fun h => hk h.symm
        simpa [List.filter_cons, he, hk, h1] using ih
    · by_cases hk : e.1 = k'
      · have h1 : ¬ k' = k := fun h => he (by rw [hk, h])
        simp [h1, hk]
      · simpa [List.filter_cons, he, hk] using ih

/-- Replacing a value that counts by one that does not lowers the count. -/
theorem countP_values_set_lt {t : Table κ α} {k : κ} {v w : α} {p : α → Bool}
    (h : t.get? k = some v) (hv : p v = true) (hw : p w = false) :
    (t.set k w).values.countP p < t.values.countP p := by
  have hk : k ∈ t.keys := contains_iff_mem_keys.1 (by simp [contains, h])
  simp only [set, dif_pos hk, values, modify, List.countP_map]
  have hle : ∀ es : List (κ × α),
      es.countP ((p ∘ Prod.snd) ∘ fun e => if e.1 = k then (e.1, w) else e)
        ≤ es.countP (p ∘ Prod.snd) := by
    intro es
    apply List.countP_mono_left
    intro e _
    simp only [Function.comp]
    split <;> simp [hw]
  rw [get?] at h
  revert h
  induction t.entries with
  | nil => simp
  | cons e es ih =>
    intro h
    by_cases he : e.1 = k
    · have hev : e.2 = v := by simpa [he] using h
      have := hle es
      rw [List.countP_cons_of_neg (by simp [he, hw]), List.countP_cons_of_pos (by simp [hev, hv])]
      omega
    · have := ih (by simpa [he] using h)
      rw [List.countP_cons, List.countP_cons]
      simp only [Function.comp, if_neg he] at this ⊢
      omega

end Table

end BeanStream
