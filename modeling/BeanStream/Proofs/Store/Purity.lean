import BeanStream.Proofs.Codec.Hands
import BeanStream.Proofs.Result
import BeanStream.Proofs.Store.Lists

/-!
# Pure containers

A supplier is **pure** if it supplies the same on every query (`Store.Supplies`). A lazy value is
pure if it is settled what it holds, once and for all (`Store.Holds`): it has settled on that, or
its initializer makes it, or asks another lazy value that is pure itself. Lazy values that ask each
other in a circle are pure, too: whichever is forced first, each of them holds the text that says
so. An initializer that panics makes nothing, and one that tells about the progress of another lazy
value does not make the same each time. A value is pure if all containers that it leads to are, be
it as parts or because a codec hands them on (`Store.Pure`).

Main facts: what a lazy value holds is **unique** (`Holds.unique`), and is what it may settle on
(`Holds.settlesOn`).
-/

namespace BeanStream

open Relation

/-- A supplier that neither counts its queries nor panics. -/
def Supply.Repeats : Supply → Prop
  | .fixed _ | .reading _ => True
  | .mapped source _ => source.Repeats
  | .counting _ | .alternating _ _ | .panicking => False

namespace Store

variable (decls : Declarations) (s : Store)

/-- On every query, the supplier supplies `v`, whatever was asked before. -/
def Supplies (supply : Supply) (v : Option Value) : Prop :=
  ∀ s' : Store, s'.boxes = s.boxes →
    ∃ counters, supply.query decls s' = .ok v { s' with counters }

/-- What an initializer makes that asks no other lazy value. -/
inductive Makes : Initializer → Option Value → Prop
  | fixed (v) : Makes (.fixed v) v
  | reading (box) : Makes (.reading box) (s.box box)
  | querying {box identity supply v} : s.box box = some (.provider identity supply) →
      s.Supplies decls supply v → Makes (.querying box) v
  /-- No lazy value is in the box. -/
  | forcing {box} : (∀ other, s.box box ≠ some (.lazy other)) → Makes (.forcing box) none
  /-- No lazy value is in the box. -/
  | describing {box} : (∀ other, s.box box ≠ some (.lazy other)) → Makes (.describing box) none
  /-- No provider is in the box. -/
  | nobody {box} : (∀ identity supply, s.box box ≠ some (.provider identity supply)) →
      Makes (.querying box) none

/-- The initializer of one lazy value asks another one. -/
def Forces (cell other : Nat) : Prop :=
  ∃ box, s.lazyState cell = .pending (.forcing box) ∧ s.box box = some (.lazy other)

/-- What a lazy value holds that asks for itself, as its own initializer is told. -/
def circular : Option Value :=
  some (.ofString (UnwrapError.reentrant "lazy value").message)

/-- What a lazy value has settled on, or settles on whenever it is forced. -/
inductive Holds : Nat → Option Value → Prop
  | ready {cell v} : s.lazyState cell = .ready v → Holds cell v
  | makes {cell init v} : s.lazyState cell = .pending init → s.Makes decls init v → Holds cell v
  | forces {cell other v} : s.Forces cell other → Holds other v → Holds cell v
  | circular {cell} : TransGen s.Forces cell cell → Holds cell circular

/-- A container that answers the same on every query. -/
def Steady : Value → Prop
  | .provider _ supply | .producer _ supply => ∃ v, s.Supplies decls supply v
  | .lazy cell => ∃ v, s.Holds decls cell v
  | _ => True

/-- What a pass may be led to from a value. -/
inductive Leads (codecs : CodecRegistry) : Value → Value → Prop
  | part {v w} : s.Part decls v w → Leads codecs v w
  | handed {v w} : codecs.Hands v w → Leads codecs v w

/-- All containers that a value leads to answer the same on every query. -/
def Pure (codecs : CodecRegistry) (v : Value) : Prop :=
  ∀ w, ReflTransGen (s.Leads decls codecs) v w → s.Steady decls w

variable {decls} {s} {codecs : CodecRegistry}

theorem Pure.steady {v : Value} (h : s.Pure decls codecs v) : s.Steady decls v := h v .refl

theorem Pure.part {v w : Value} (h : s.Pure decls codecs v) (part : s.Part decls v w) :
    s.Pure decls codecs w :=
  fun _ leads => h _ (.head (.part part) leads)

theorem Pure.handed {v w : Value} (h : s.Pure decls codecs v) (hands : codecs.Hands v w) :
    s.Pure decls codecs w :=
  fun _ leads => h _ (.head (.handed hands) leads)

/-- Flat codecs lead to no other values. -/
theorem pure_iff (flat : codecs.Flat) {v : Value} :
    s.Pure decls codecs v ↔ s.Steady decls v ∧ ∀ w, s.Part decls v w → s.Pure decls codecs w := by
  constructor
  · intro h
    exact ⟨h.steady, fun w part => h.part part⟩
  · rintro ⟨steady, parts⟩ w reaches
    rcases ReflTransGen.cases_head reaches with rfl | ⟨u, part | hands, reaches⟩
    · exact steady
    · exact parts u part w reaches
    · exact absurd hands (CodecRegistry.Flat.not_hands flat v u)

/-! ### Suppliers -/

/-- A supplier that neither counts its queries nor panics supplies the same on every one of them. -/
theorem exists_supplies {supply : Supply} (h : supply.Repeats) :
    ∃ v, s.Supplies decls supply v := by
  induction supply using Supply.Repeats.induct with
  | case1 v => exact ⟨v, fun s' _ => ⟨s'.counters, rfl⟩⟩
  | case2 box =>
    refine ⟨s.box box, fun s' boxes => ⟨s'.counters, ?_⟩⟩
    rw [Store.box, ← boxes]
    rfl
  | case3 source f ih =>
    obtain ⟨v, supplies⟩ := ih h
    refine ⟨v.bind (f.apply decls), fun s' boxes => ?_⟩
    obtain ⟨counters, asked⟩ := supplies s' boxes
    refine ⟨counters, ?_⟩
    simp [Supply.query, bind, EStateM.bind, asked, pure, EStateM.pure]
  | case4 | case5 | case6 => exact h.elim

theorem Supplies.unique {supply : Supply} {v w : Option Value} (h : s.Supplies decls supply v)
    (h' : s.Supplies decls supply w) : v = w := by
  obtain ⟨counters, asked⟩ := h s rfl
  obtain ⟨counters', asked'⟩ := h' s rfl
  rw [asked] at asked'
  cases asked'
  rfl

/-- What is supplied is on offer. -/
theorem Supplies.offers {supply : Supply} {v : Value} (h : s.Supplies decls supply (some v)) :
    s.Offers decls supply v := by
  obtain ⟨counters, asked⟩ := h s rfl
  have spec := Supply.query_spec decls supply s
  rw [asked] at spec
  exact spec.2 v rfl

/-- Whatever is supplied, a query moves counters on and changes nothing else. -/
theorem exists_counters_query (decls : Declarations) (supply : Supply) (s : Store) :
    ∃ counters, aftermath (supply.query decls s) = { s with counters } := by
  induction supply using Supply.query.induct generalizing s with
  | case1 v => exact ⟨s.counters, rfl⟩
  | case2 box => exact ⟨s.counters, rfl⟩
  | case3 counter => exact ⟨_, rfl⟩
  | case4 counter v => exact ⟨_, rfl⟩
  | case5 => exact ⟨s.counters, rfl⟩
  | case6 source f ih =>
    obtain ⟨counters, asked⟩ := ih s
    refine ⟨counters, ?_⟩
    rw [← asked]
    simp only [Supply.query, bind, EStateM.bind]
    rcases source.query decls s with ⟨v, s'⟩ | ⟨reason, s'⟩ <;> rfl

/-! ### Lazy values -/

theorem Forces.unique {cell other other' : Nat} (h : s.Forces cell other)
    (h' : s.Forces cell other') : other = other' := by
  obtain ⟨box, state, content⟩ := h
  obtain ⟨box', state', content'⟩ := h'
  rw [state] at state'
  cases state'
  rw [content] at content'
  cases content'
  rfl

/-- An initializer that asks another lazy value makes nothing by itself. -/
theorem Makes.not_forces {cell other : Nat} {init : Initializer} {v : Option Value}
    (h : s.Makes decls init v) (state : s.lazyState cell = .pending init) :
    ¬ s.Forces cell other := by
  rintro ⟨box, asks, content⟩
  rw [state] at asks
  cases asks
  cases h with
  | forcing empty => exact empty other content

theorem Makes.unique {init : Initializer} {v w : Option Value} (h : s.Makes decls init v)
    (h' : s.Makes decls init w) : v = w := by
  cases h with
  | fixed | reading | forcing | describing =>
    cases h'
    rfl
  | querying content supplies =>
    cases h' with
    | querying content' supplies' =>
      rw [content] at content'
      cases content'
      exact supplies.unique supplies'
    | nobody empty => exact absurd content (empty _ _)
  | nobody empty =>
    cases h' with
    | querying content' _ => exact absurd content' (empty _ _)
    | nobody => rfl

/-- Where a lazy value asks another one, that one is asked next on a circle. -/
private theorem circular_of_forces {cell other : Nat} (h : TransGen s.Forces cell cell)
    (forces : s.Forces cell other) : TransGen s.Forces other other := by
  obtain ⟨next, first, back⟩ := TransGen.head'_iff.1 h
  obtain rfl := forces.unique first
  exact .tail' back forces

/-- On a circle, a lazy value holds the text that says so, and nothing else. -/
theorem Holds.eq_circular {cell : Nat} {v : Option Value} (h : s.Holds decls cell v)
    (circle : TransGen s.Forces cell cell) : v = Store.circular := by
  induction h with
  | ready state =>
    obtain ⟨next, ⟨box, state', -⟩, -⟩ := TransGen.head'_iff.1 circle
    rw [state] at state'
    cases state'
  | makes state makes =>
    obtain ⟨next, first, -⟩ := TransGen.head'_iff.1 circle
    exact absurd first (makes.not_forces state)
  | forces forces _ ih => exact ih (circular_of_forces circle forces)
  | circular => rfl

/-- How it comes that a lazy value holds something. -/
theorem Holds.cases {cell : Nat} {v : Option Value} (h : s.Holds decls cell v) :
    s.lazyState cell = .ready v ∨
      (∃ init, s.lazyState cell = .pending init ∧ s.Makes decls init v) ∨
      ∃ other, s.Forces cell other ∧ s.Holds decls other v := by
  cases h with
  | ready state => exact .inl state
  | makes state makes => exact .inr (.inl ⟨_, state, makes⟩)
  | forces forces holds => exact .inr (.inr ⟨_, forces, holds⟩)
  | circular circle =>
    obtain ⟨other, forces, -⟩ := TransGen.head'_iff.1 circle
    exact .inr (.inr ⟨other, forces, .circular (circular_of_forces circle forces)⟩)

/-- What a lazy value holds is settled. -/
theorem Holds.unique {cell : Nat} {v w : Option Value} (h : s.Holds decls cell v)
    (h' : s.Holds decls cell w) : v = w := by
  -- along the lazy values that ask one another
  induction h generalizing w with
  | ready state =>
    rcases h'.cases with state' | ⟨init, state', -⟩ | ⟨other, ⟨box, state', -⟩, -⟩ <;>
      rw [state] at state' <;> cases state'
    rfl
  | makes state makes =>
    rcases h'.cases with state' | ⟨init, state', makes'⟩ | ⟨other, forces, -⟩
    · rw [state] at state'
      cases state'
    · rw [state] at state'
      cases state'
      exact makes.unique makes'
    · exact absurd forces (makes.not_forces state)
  | forces forces _ ih =>
    rcases h'.cases with state' | ⟨init, state', makes'⟩ | ⟨other, forces', holds'⟩
    · obtain ⟨box, state, -⟩ := forces
      rw [state] at state'
      cases state'
    · exact absurd forces (makes'.not_forces state')
    · obtain rfl := forces.unique forces'
      exact ih holds'
  | circular circle => exact (h'.eq_circular circle).symm

/-- What a pure lazy value holds is what it may settle on. -/
theorem Holds.settlesOn {cell : Nat} {v : Value} (h : s.Holds decls cell (some v)) :
    s.SettlesOn decls cell v := by
  generalize held : some v = w at h
  induction h with
  | ready state => exact .ready (held ▸ state)
  | makes state makes =>
    subst held
    generalize held : some v = w at makes
    cases makes with
    | fixed => exact .fixed (held ▸ state)
    | reading => exact .reading state held.symm
    | querying content supplies =>
      subst held
      exact .querying state content supplies.offers
    | forcing | describing | nobody => cases held
  | forces forces _ ih =>
    obtain ⟨box, state, content⟩ := forces
    exact .forcing state content (ih held)
  | circular circle =>
    obtain ⟨other, ⟨box, state, content⟩, -⟩ := TransGen.head'_iff.1 circle
    cases held
    exact .message _ state content

end Store

end BeanStream
