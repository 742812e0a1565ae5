import BeanStream.Proofs.Table
import BeanStream.TypeId
import Mathlib.Data.Set.Card

/-!
# Tables as partial functions

Whatever a table does with its entries, a user of it sees a **partial function** from keys to
values, which a write replaces at one key and a removal leaves undefined there. A call on a table
and the same call on its function (`Update.perform`, `Update.act`) have the same effects, reply the
same, and leave a table and the function of that table (`Update.map_perform`); so do rows of calls
(`map_run`). The queries of a table answer as its function does (`answers_get?`).

Effects are those of the computations that fill vacant keys, in any monad. That a call has the
effects of such a computation if the key is vacant, and no effects otherwise, says that the
computation **runs exactly if the key is vacant**.

Main fact: after any row of calls on a new table, all its queries answer as the function that the
same calls make of the one that is defined nowhere (`refines_partial_function`).
-/

namespace BeanStream.Table

variable {κ α : Type} {μ : Type → Type}

/-! ### Calls -/

/-- A call that may change a table. The value for a vacant key is computed by `make`, and `change`
is what the caller does to a value through the reference to it. -/
inductive Update (μ : Type → Type) (κ α : Type) where
  | insert (k : κ) (v : α)
  | tryInsert (k : κ) (make : μ α)
  | getOrInsert (k : κ) (make : μ α) (change : α → α)
  | getMut (k : κ) (change : α → α)
  | remove (k : κ)
  | clear

/-- What a call returns. -/
inductive Reply (α : Type) where
  /-- The value that a key had, if it had one. -/
  | had (v : Option α)
  /-- Whether a vacant key was filled. -/
  | filled (b : Bool)
  /-- The value that a reference leads to, before the caller changes it. -/
  | found (v : α)
  | done

/-- The key that a call is about. Clearing is about all of them. -/
def Update.key? : Update μ κ α → Option κ
  | .insert k _ | .tryInsert k _ | .getOrInsert k _ _ | .getMut k _ | .remove k => some k
  | .clear => none

/-- Makes calls one after the other, each on what the one before it left. -/
def run {σ : Type} [Monad μ] (call : σ → Update μ κ α → μ (Reply α × σ)) (s : σ) :
    List (Update μ κ α) → μ (List (Reply α) × σ)
  | [] => pure ([], s)
  | u :: us => do
    let (reply, s) ← call s u
    let (replies, s) ← run call s us
    pure (reply :: replies, s)

/-- Rows of calls agree, up to a view of what they leave, if the calls agree one by one. -/
theorem map_run [Monad μ] [LawfulMonad μ] {σ τ : Type}
    {call : σ → Update μ κ α → μ (Reply α × σ)} {call' : τ → Update μ κ α → μ (Reply α × τ)}
    {view : σ → τ} (agree : ∀ s u, Prod.map id view <$> call s u = call' (view s) u) (s : σ)
    (us : List (Update μ κ α)) :
    Prod.map id view <$> run call s us = run call' (view s) us := by
  induction us generalizing s with
  | nil => simp [run]
  | cons u us ih => simp [run, ← agree, ← ih]

variable [DecidableEq κ]

section Calls

variable [Monad μ]

/-- Makes a call on a table. -/
def Update.perform (t : Table κ α) : Update μ κ α → μ (Reply α × Table κ α)
  | .insert k v => pure (.had (t.insert k v).1, (t.insert k v).2)
  | .tryInsert k make => do
    let (filled, t) ← t.tryInsertM k make
    pure (.filled filled, t)
  | .getOrInsert k make change => do
    let (v, t) ← t.getOrInsertM k make
    pure (.found v, t.modify k change)
  | .getMut k change => pure (.had (t.get? k), t.modify k change)
  | .remove k => pure (.had (t.remove k).1, (t.remove k).2)
  | .clear => pure (.done, .empty)

/-- Makes a call on a partial function. -/
def Update.act (f : κ → Option α) : Update μ κ α → μ (Reply α × (κ → Option α))
  | .insert k v => pure (.had (f k), Function.update f k (some v))
  | .tryInsert k make =>
    match f k with
    | some _ => pure (.filled false, f)
    | none => do
      let v ← make
      pure (.filled true, Function.update f k (some v))
  | .getOrInsert k make change =>
    match f k with
    | some v => pure (.found v, Function.update f k (some (change v)))
    | none => do
      let v ← make
      pure (.found v, Function.update f k (some (change v)))
  | .getMut k change => pure (.had (f k), Function.update f k ((f k).map change))
  | .remove k => pure (.had (f k), Function.update f k none)
  | .clear => pure (.done, fun _ => none)

end Calls

/-! ### Queries -/

/-- All queries of a table answer as a partial function does. Keys and values come in some order,
but in the same one. -/
structure Answers (t : Table κ α) (f : κ → Option α) : Prop where
  get? : ∀ k, t.get? k = f k
  contains : ∀ k, t.contains k = true ↔ ∃ v, f k = some v
  mem_keys : ∀ k, k ∈ t.keys ↔ ∃ v, f k = some v
  nodup_keys : t.keys.Nodup
  values : t.values.map some = t.keys.map f
  size : t.size = {k | ∃ v, f k = some v}.ncard
  isEmpty : t.isEmpty = true ↔ ∀ k, f k = none

/-- The values of a table are those of its keys, in their order. -/
theorem map_some_values (t : Table κ α) : t.values.map some = t.keys.map t.get? := by
  rw [values, keys, List.map_map, List.map_map]
  refine List.map_congr_left fun e listed => ?_
  have held : t.get? e.1 = some e.2 := mem_entries_iff.1 listed
  exact held.symm

/-- The size of a table is the number of keys that have a value. -/
theorem size_eq_ncard (t : Table κ α) : t.size = {k | ∃ v, t.get? k = some v}.ncard := by
  have domain : {k | ∃ v, t.get? k = some v} = (t.keys.toFinset : Set κ) := by
    ext k
    have listed : (∃ v, t.get? k = some v) ↔ k ∈ t.keys :=
      Option.isSome_iff_exists.symm.trans contains_iff_mem_keys
    simpa using listed
  calc t.size
      = t.keys.length := (List.length_map _).symm
    _ = t.keys.toFinset.card := (List.toFinset_card_of_nodup t.nodup).symm
    _ = {k | ∃ v, t.get? k = some v}.ncard := by rw [domain, Set.ncard_coe_finset]

/-- A table is empty if no key has a value. -/
theorem isEmpty_iff {t : Table κ α} : t.isEmpty = true ↔ ∀ k, t.get? k = none := by
  have listed : t.isEmpty = true ↔ t.keys = [] := by
    rw [isEmpty, List.isEmpty_iff, keys, List.map_eq_nil_iff]
  rw [listed, List.eq_nil_iff_forall_not_mem]
  exact forall_congr' fun k => get?_eq_none_iff.symm

/-- The queries of a table answer as its function does. -/
theorem answers_get? (t : Table κ α) : t.Answers t.get? where
  get? _ := rfl
  contains _ := Option.isSome_iff_exists
  mem_keys _ := contains_iff_mem_keys.symm.trans Option.isSome_iff_exists
  nodup_keys := t.nodup
  values := t.map_some_values
  size := t.size_eq_ncard
  isEmpty := isEmpty_iff

/-! ### The function of a table -/

theorem get?_set_eq_update (t : Table κ α) (k : κ) (v : α) :
    (t.set k v).get? = Function.update t.get? k (some v) := by
  funext k'
  rw [get?_set, Function.update_apply]

theorem get?_modify_eq_update (t : Table κ α) (k : κ) (f : α → α) :
    (t.modify k f).get? = Function.update t.get? k ((t.get? k).map f) := by
  funext k'
  rw [get?_modify, Function.update_apply]
  by_cases own : k' = k
  · rw [if_pos own, if_pos own, own]
  · rw [if_neg own, if_neg own]

theorem get?_erase_eq_update (t : Table κ α) (k : κ) :
    (t.erase k).get? = Function.update t.get? k none := by
  funext k'
  rw [get?_erase, Function.update_apply]

variable [Monad μ] [LawfulMonad μ]

/-- A call on a table does what the call on its function does. -/
theorem Update.map_perform (t : Table κ α) (u : Update μ κ α) :
    Prod.map id get? <$> u.perform t = u.act t.get? := by
  cases u with
  | insert k v => simp [perform, act, Table.insert, get?_set_eq_update]
  | tryInsert k make =>
    cases held : t.get? k with
    | some v => simp [perform, act, tryInsertM, contains, held]
    | none => simp [perform, act, tryInsertM, contains, held, get?_set_eq_update]
  | getOrInsert k make change =>
    cases held : t.get? k with
    | some v => simp [perform, act, getOrInsertM, held, get?_modify_eq_update]
    | none =>
      -- the key is filled first, and then its value is changed
      simp [perform, act, getOrInsertM, held, get?_modify_eq_update, get?_set_eq_update]
  | getMut k change => simp [perform, act, get?_modify_eq_update]
  | remove k => simp [perform, act, Table.remove, get?_erase_eq_update]
  | clear =>
    have nowhere : (empty : Table κ α).get? = fun _ => none := funext get?_empty
    simp [perform, act, nowhere]

/-- A call about one key leaves a partial function as it is at every other key. -/
theorem Update.map_act_apply {u : Update μ κ α} {k k' : κ} (about : u.key? = some k)
    (other : k' ≠ k) (f : κ → Option α) :
    (fun left => left.2 k') <$> u.act f = (fun _ => f k') <$> u.act f := by
  cases u with
  | insert | getMut | remove =>
    cases about
    simp [act, other]
  | tryInsert | getOrInsert =>
    cases about
    cases held : f k <;> simp [act, held, other]
  | clear => cases about

/-- Calls on a table that starts empty have the effects and the replies of the same calls on the
function that is defined nowhere, and leave a table with the function that these leave. The queries
of a table answer as its function does. No call about one key changes the value of another. -/
theorem refines_partial_function :
    (∀ us : List (Update μ κ α),
      Prod.map id get? <$> run Update.perform (empty : Table κ α) us =
        run Update.act (fun _ => none) us) ∧
    (∀ t : Table κ α, t.Answers t.get?) ∧
    ∀ (t : Table κ α) (u : Update μ κ α) (k k' : κ), u.key? = some k → k' ≠ k →
      (fun left => left.2.get? k') <$> u.perform t = (fun _ => t.get? k') <$> u.perform t := by
  refine ⟨fun us => map_run Update.map_perform empty us, answers_get?, ?_⟩
  intro t u k k' about other
  have agree := Update.map_perform t u
  calc (fun left => left.2.get? k') <$> u.perform t
      = (fun left => left.2 k') <$> Prod.map id get? <$> u.perform t := by
        rw [Functor.map_map]; rfl
    _ = (fun _ => t.get? k') <$> Prod.map id get? <$> u.perform t := by
        rw [agree, Update.map_act_apply about other]
    _ = (fun _ => t.get? k') <$> u.perform t := by rw [Functor.map_map]

/-- A counter is looked up twice and grows by one each time. The computation of its first value,
which counts its runs, runs once; and the value beside the counter stays. -/
theorem refines_partial_function_counter :
    let first : StateM Nat Nat := modifyGet fun runs => (1, runs + 1)
    let counter : TypeId := .scalar (.int .i8)
    let us : List (Update (StateM Nat) TypeId Nat) :=
      [.getOrInsert counter first (· + 1), .insert .shared 7, .getOrInsert counter first (· + 1)]
    ∃ t : TypeMap Nat,
      (run Update.perform (empty : TypeMap Nat) us).run 0 =
        (([.found 1, .had none, .found 2], t), 1) ∧
      t.get? counter = some 3 ∧ t.get? .shared = some 7 ∧ t.Answers t.get? := by
  intro first counter us
  obtain ⟨rows, queries, -⟩ := refines_partial_function (μ := StateM Nat) (κ := TypeId) (α := Nat)
  have left (type : TypeId) := congrArg (fun c => (c.run 0).1.2 type) (rows us)
  exact ⟨_, rfl, left counter, left .shared, queries _⟩

end BeanStream.Table
