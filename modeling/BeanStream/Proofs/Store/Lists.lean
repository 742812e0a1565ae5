import BeanStream.Proofs.Store.Exposure
import BeanStream.Proofs.Table

/-!
# The lists of an object graph

The **parts** of a value are what a container may expose, the elements of a list, and the fields of
a bean with the conventions that stand in for them (`Store.Part`). Shared containers may lead back
to a value that they are a part of, so that a graph may be entered without end. Still it is finite:
however far one goes, one meets **only the lists that are spelled out** in the value or in the store
(`Store.Part.lists_subset`).

Of two lists, one is **within** the other if containers alone lead to it from an element of the
other (`Store.Within`).
-/

namespace BeanStream

open Relation

mutual

/-- The lists spelled out in a value. -/
def Value.lists : Value → List (List Value)
  | .optional _ none => []
  | .optional _ (some v) => v.lists
  | .shared v => v.lists
  | .boxed v => v.lists
  | .sequence _ items => items :: Value.listsOfAll items
  | .bean _ fields _ => Value.listsOfAll fields
  | .provider _ supply => supply.lists
  | .producer _ supply => supply.lists
  | .scalar _ | .custom _ _ _ | .tree _ _ | .property _ | .file _ | .lazy _ => []

/-- The lists spelled out in values. -/
def Value.listsOfAll : List Value → List (List Value)
  | [] => []
  | v :: vs => v.lists ++ Value.listsOfAll vs

/-- The lists spelled out in a supplier. -/
def Supply.lists : Supply → List (List Value)
  | .fixed (some v) => v.lists
  | .alternating _ v => v.lists
  | .mapped source _ => source.lists
  | .fixed none | .reading _ | .counting _ | .panicking => []

end

/-- The lists spelled out in a value, if there is one. -/
def Value.listsOf? (v : Option Value) : List (List Value) := (v.map Value.lists).getD []

/-- The lists spelled out in the progress of a lazy value. -/
def LazyState.lists : LazyState → List (List Value)
  | .ready content => Value.listsOf? content
  | .pending (.fixed v) => Value.listsOf? v
  | _ => []

namespace Store

/-- The lists spelled out in a store. -/
def lists (s : Store) : List (List Value) :=
  s.properties.values.flatMap Value.listsOf? ++ s.boxes.values.flatMap Value.listsOf? ++
    s.lazies.values.flatMap LazyState.lists ++
    s.mappings.values.flatMap fun names => names.values.flatMap fun p => p.2.lists

variable (decls : Declarations) (s : Store)

/-- What a value is made of. -/
inductive Part : Value → Value → Prop
  | exposed {v w} : s.Exposes decls v w → Part v w
  | element {type items v} : v ∈ items → Part (.sequence type items) v
  | field {type slots mapping v} : v ∈ slots → Part (.bean type slots mapping) v
  | convention {type slots mapping name v} : s.conventionValue mapping name = some v →
      Part (.bean type slots mapping) v

/-- Containers alone lead from an element of the list `outer` to the list `inner`. -/
def Within (inner outer : List Value) : Prop :=
  ∃ v ∈ outer, ∃ type, ReflTransGen (s.Exposes decls) v (.sequence type inner)

end Store

/-! ### Lists that are met -/

variable {decls : Declarations} {s : Store}

theorem Value.lists_subset_of_mem {v : Value} {vs : List Value} (h : v ∈ vs) :
    v.lists ⊆ Value.listsOfAll vs := by
  induction vs with
  | nil => cases h
  | cons w vs ih =>
    rw [listsOfAll]
    rcases List.mem_cons.1 h with rfl | h
    · exact List.subset_append_left _ _
    · exact List.subset_append_of_subset_right _ (ih h)

/-- A transform makes no lists. -/
theorem Transform.lists_apply {f : Transform} {v w : Value} (h : f.apply decls v = some w) :
    w.lists ⊆ v.lists := by
  unfold apply at h
  split at h <;> cases h
  -- a value is passed on, or a scalar is made
  case h_1 | h_5 => exact List.Subset.refl _
  case h_3 | h_6 => exact List.nil_subset _

namespace Store

/-- What a table holds is spelled out in one of its values. -/
private theorem subset_flatMap {κ α : Type} [DecidableEq κ] {t : Table κ α} {k : κ} {a : α}
    (h : t.get? k = some a) (f : α → List (List Value)) : f a ⊆ t.values.flatMap f :=
  fun _ listed => List.mem_flatMap.2 ⟨a, Table.mem_values_iff.2 ⟨k, h⟩, listed⟩

private theorem lists_content {t : Table Nat (Option Value)} {k : Nat} {v : Value}
    (h : (t.get? k).getD none = some v) : v.lists ⊆ t.values.flatMap Value.listsOf? := by
  rcases found : t.get? k with _ | content
  · rw [found] at h
    cases h
  · rw [found] at h
    cases h
    exact subset_flatMap found Value.listsOf?

theorem lists_property {cell : Nat} {v : Value} (h : s.property cell = some v) :
    v.lists ⊆ s.lists := by
  intro items listed
  have spelled := lists_content h listed
  simp only [lists, List.mem_append, spelled, true_or]

theorem lists_box {box : Nat} {v : Value} (h : s.box box = some v) : v.lists ⊆ s.lists := by
  intro items listed
  have spelled := lists_content h listed
  simp only [lists, List.mem_append, spelled, true_or, or_true]

theorem lists_lazyState (s : Store) (cell : Nat) : (s.lazyState cell).lists ⊆ s.lists := by
  intro items listed
  rcases found : s.lazies.get? cell with _ | state <;> rw [lazyState, found] at listed
  · cases listed
  · have spelled := subset_flatMap found LazyState.lists listed
    simp only [lists, List.mem_append, spelled, true_or, or_true]

theorem lists_conventionValue {mapping : Nat} {name : String} {v : Value}
    (h : s.conventionValue mapping name = some v) : v.lists ⊆ s.lists := by
  intro items listed
  obtain ⟨⟨identity, supply⟩, mapped, rfl⟩ := Option.map_eq_some_iff.1 h
  rcases found : s.mappings.get? mapping with _ | names <;> rw [Store.mapping, found] at mapped
  · cases mapped
  · have spelled := subset_flatMap found (fun names => names.values.flatMap fun p => p.2.lists)
      (subset_flatMap mapped (fun p => p.2.lists) listed)
    simp only [lists, List.mem_append, spelled, or_true]

/-- What a supplier may answer spells out no other lists. -/
theorem Offers.lists_subset {supply : Supply} {v : Value} (h : s.Offers decls supply v) :
    v.lists ⊆ supply.lists ++ s.lists := by
  induction h with
  | fixed v => exact List.subset_append_left _ _
  | reading content => exact List.subset_append_of_subset_right _ (lists_box content)
  | counting counter n => exact List.nil_subset _
  | alternating counter v => exact List.subset_append_left _ _
  | mapped _ apply ih => exact List.Subset.trans (Transform.lists_apply apply) ih

/-- What a lazy value may settle on spells out no other lists. -/
theorem SettlesOn.lists_subset {cell : Nat} {v : Value} (h : s.SettlesOn decls cell v) :
    v.lists ⊆ s.lists := by
  -- along the lazy values that wait for one another
  induction h with
  | @ready cell v state | @fixed cell v state =>
    have spelled := lists_lazyState s cell
    rw [state] at spelled
    exact spelled
  | reading _ content => exact lists_box content
  | forcing _ _ _ ih => exact ih
  | message text _ _ | describing text _ => exact List.nil_subset _
  | querying _ content offers =>
    -- the supplier is in a box of the store
    have spelled : _ ⊆ s.lists := lists_box content
    exact List.Subset.trans offers.lists_subset
      (List.append_subset.2 ⟨spelled, List.Subset.refl _⟩)

/-- What a container may expose spells out no other lists. -/
theorem Exposes.lists_subset {v w : Value} (h : s.Exposes decls v w) :
    w.lists ⊆ v.lists ++ s.lists := by
  cases h with
  | optional | shared | boxed => exact List.subset_append_left _ _
  | property content => exact List.subset_append_of_subset_right _ (lists_property content)
  | file | unit => exact List.nil_subset _
  | provider offers | producer offers => exact offers.lists_subset
  | lazy settles => exact List.subset_append_of_subset_right _ settles.lists_subset

/-- A part of a value spells out no other lists. -/
theorem Part.lists_subset {v w : Value} (h : s.Part decls v w) :
    w.lists ⊆ v.lists ++ s.lists := by
  cases h with
  | exposed exposes => exact exposes.lists_subset
  | element mem =>
    exact List.subset_append_of_subset_left _
      (List.subset_cons_of_subset _ (Value.lists_subset_of_mem mem))
  | field mem => exact List.subset_append_of_subset_left _ (Value.lists_subset_of_mem mem)
  | convention content => exact List.subset_append_of_subset_right _ (lists_conventionValue content)

/-- What containers may expose, one after the other, are parts. -/
theorem parts_of_exposed {v w : Value} (h : ReflTransGen (s.Exposes decls) v w) :
    ReflTransGen (s.Part decls) v w :=
  ReflTransGen.mono (fun _ _ => .exposed) v w h

/-- Whatever a value leads to, the lists that are met are spelled out in it or in the store. -/
theorem mem_lists_of_parts {v : Value} {type : TypeId} {items : List Value}
    (h : ReflTransGen (s.Part decls) v (.sequence type items)) : items ∈ v.lists ++ s.lists := by
  have subset {w : Value} (h : ReflTransGen (s.Part decls) v w) : w.lists ⊆ v.lists ++ s.lists := by
    -- one part after the other, none of which brings lists of its own
    induction h with
    | refl => exact List.subset_append_left _ _
    | tail _ part ih =>
      exact List.Subset.trans part.lists_subset
        (List.append_subset.2 ⟨ih, List.subset_append_right _ _⟩)
  exact subset h (List.mem_cons_self ..)

end Store

end BeanStream
