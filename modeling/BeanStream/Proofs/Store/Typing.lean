import BeanStream.Proofs.Store.Lists

/-!
# Well-typed values

Every type has values of one kind: those of a scalar type are scalars, and those of a bean type are
instances with a slot for each field. Any type may be that of a bean, lists of the library as well,
but for those that the library takes apart by itself: scalar types and containers. Which types have
slots, and how many, is their **layout**. A value is **typed** (`Value.Typed`) if it keeps to the
layout, with all that is spelled out in it, and a store is, if its contents are (`Store.Typed`).

Main facts: values of a type with slots are instances of beans (`Value.Typed.exists_bean`), those of
a scalar type are scalars (`Value.Typed.exists_scalar`), and a typed value is **typed still when it
is unwrapped**, as is the store that is left (`Value.unwrap_typed`).
-/

namespace BeanStream

open Relation

/-- Whether lists may be of a type. All others are scalar types and containers. -/
def TypeId.isList : TypeId → Bool
  | .list _ | .array _ _ | .named _ => true
  | _ => false

/-- How many slots the values of a type have, if they are instances of a bean. -/
structure Layout where
  slots : TypeId → Option Nat
  /-- Scalars and containers have none. -/
  library : ∀ {type : TypeId}, type.isList = false → slots type = none

variable (L : Layout)

mutual

/-- A value keeps to the layout, and so do the values spelled out in it. -/
def Value.Typed : Value → Prop
  | .scalar _ | .property _ | .file _ | .lazy _ | .optional _ none => True
  | .custom type _ none => L.slots (.named type) = none
  | .custom type _ (some v) => L.slots (.named type) = none ∧ v.Typed
  | .tree type _ => L.slots (.named type) = none
  | .optional _ (some v) => v.Typed
  | .shared v => v.Typed
  | .boxed v => v.Typed
  | .sequence type items => type.isList = true ∧ L.slots type = none ∧ Value.AllTyped items
  | .bean type slots _ => L.slots type = some slots.length ∧ Value.AllTyped slots
  | .provider _ supply => supply.Typed
  | .producer _ supply => supply.Typed

/-- All of these values are typed. -/
def Value.AllTyped : List Value → Prop
  | [] => True
  | v :: vs => v.Typed ∧ Value.AllTyped vs

/-- The values spelled out in a supplier are typed. -/
def Supply.Typed : Supply → Prop
  | .fixed (some v) => v.Typed
  | .alternating _ v => v.Typed
  | .mapped source _ => source.Typed
  | .fixed none | .reading _ | .counting _ | .panicking => True

end

/-- The contents of a store are typed. -/
structure Store.Typed (s : Store) : Prop where
  property : ∀ {cell v}, s.property cell = some v → v.Typed L
  box : ∀ {n v}, s.box n = some v → v.Typed L
  ready : ∀ {cell v}, s.lazyState cell = .ready (some v) → v.Typed L
  fixed : ∀ {cell v}, s.lazyState cell = .pending (.fixed (some v)) → v.Typed L
  convention : ∀ {mapping name v}, s.conventionValue mapping name = some v → v.Typed L

/-- An empty store is typed, whatever the layout. -/
theorem Store.typed_empty : Store.Typed L {} where
  property found := nomatch found
  box found := nomatch found
  ready found := nomatch found
  fixed found := nomatch found
  convention found := nomatch found

variable {L} {decls : Declarations} {s s' : Store}

namespace Value

theorem allTyped_iff {vs : List Value} : AllTyped L vs ↔ ∀ v ∈ vs, v.Typed L := by
  induction vs with
  | nil => simp [AllTyped]
  | cons v vs ih => simp [AllTyped, ih]

/-- Values of a type with slots are instances with as many of them. -/
theorem Typed.exists_bean {v : Value} {n : Nat} (h : v.Typed L)
    (slots : L.slots v.typeId = some n) :
    ∃ type own mapping, v = .bean type own mapping ∧ own.length = n := by
  cases v with
  | bean type own mapping =>
    have length : L.slots type = some own.length := h.1
    exact ⟨type, own, mapping, rfl, Option.some.inj (length.symm.trans slots)⟩
  | sequence type items =>
    have none : L.slots type = none := h.2.1
    cases none.symm.trans slots
  | custom type data inner =>
    have none : L.slots (.named type) = none := by
      cases inner with
      | none => exact h
      | some v => exact h.1
    cases none.symm.trans slots
  | tree type t =>
    have none : L.slots (.named type) = none := h
    cases none.symm.trans slots
  | scalar | optional | shared | boxed | property | file | lazy | provider | producer =>
    cases (L.library rfl).symm.trans slots

/-- Values of a scalar type are scalars. -/
theorem Typed.exists_scalar {v : Value} (h : v.Typed L) {t : ScalarType}
    (type : v.typeId = .scalar t) : ∃ s, v = .scalar s := by
  cases v with
  | scalar s => exact ⟨s, rfl⟩
  | sequence own items =>
    have list : own.isList = true := h.1
    rw [show own = .scalar t from type] at list
    cases list
  | bean own slots mapping =>
    have length : L.slots own = some slots.length := h.1
    rw [show own = .scalar t from type] at length
    cases (L.library rfl).symm.trans length
  | custom | tree | optional | shared | boxed | property | file | lazy | provider | producer =>
    cases type

end Value

/-! ### What is exposed is typed -/

/-- A transform makes typed values of typed ones. -/
theorem Transform.typed_apply {f : Transform} {v w : Value} (h : v.Typed L)
    (apply : f.apply decls v = some w) : w.Typed L := by
  unfold Transform.apply at apply
  split at apply <;> cases apply
  -- a value is passed on, or a scalar is made
  case h_1 | h_5 => exact h
  case h_3 | h_6 => trivial

namespace Store

theorem Offers.typed {supply : Supply} {v : Value} (offers : s.Offers decls supply v)
    (h : s.Typed L) (own : supply.Typed L) : v.Typed L := by
  induction offers with
  | fixed | alternating => exact own
  | reading content => exact h.box content
  | counting => trivial
  | mapped _ apply ih => exact Transform.typed_apply (ih own) apply

theorem SettlesOn.typed {cell : Nat} {v : Value} (settles : s.SettlesOn decls cell v)
    (h : s.Typed L) : v.Typed L := by
  -- along the lazy values that wait for one another
  induction settles with
  | ready state => exact h.ready state
  | fixed state => exact h.fixed state
  | reading _ content => exact h.box content
  | forcing _ _ _ ih => exact ih
  | message | describing => trivial
  | querying _ content offers =>
    have supplier : Supply.Typed L _ := h.box content
    exact offers.typed h supplier

theorem Exposes.typed {v w : Value} (exposes : s.Exposes decls v w) (h : s.Typed L)
    (own : v.Typed L) : w.Typed L := by
  cases exposes with
  | optional | shared | boxed => exact own
  | property content => exact h.property content
  | file | unit => trivial
  | provider offers | producer offers => exact offers.typed h own
  | lazy settles => exact settles.typed h

/-- The parts of a typed value are typed. -/
theorem Part.typed {v w : Value} (part : s.Part decls v w) (h : s.Typed L) (own : v.Typed L) :
    w.Typed L := by
  cases part with
  | exposed exposes => exact exposes.typed h own
  | element mem => exact Value.allTyped_iff.1 own.2.2 w mem
  | field mem => exact Value.allTyped_iff.1 own.2 w mem
  | convention found => exact h.convention found

/-- The store that is left after containers were asked for their values is typed. -/
theorem Typed.later (h : s.Typed L) (later : s.Later decls s') : s'.Typed L where
  property content := h.property (later.property _ ▸ content)
  box content := h.box (later.box _ ▸ content)
  ready state := (later.ready state).typed h
  fixed state := h.fixed (later.pending state)
  convention found := h.convention (later.conventionValue _ _ ▸ found)

end Store

/-- What is left of a typed value when it is unwrapped is typed. -/
theorem Value.unwrap_typed {v : Option Value} {outcome : Except UnwrapError (Option Value)}
    (h : s.Typed L) (own : ∀ u, v = some u → u.Typed L)
    (run : (Value.unwrap decls v).run s = .ok outcome s') :
    s'.Typed L ∧ ∀ w, outcome = .ok (some w) → w.Typed L := by
  have spec := Value.unwrap_spec decls v s
  rw [run] at spec
  obtain ⟨later, reached⟩ := spec
  refine ⟨h.later later, fun w found => ?_⟩
  obtain ⟨start, rfl, reaches⟩ := reached w found
  clear reached run found
  induction reaches with
  | refl => exact own start rfl
  | tail _ exposes ih => exact exposes.typed h ih

end BeanStream
