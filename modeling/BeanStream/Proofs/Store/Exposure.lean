import BeanStream.Deferred
import Mathlib.Logic.Relation

/-!
# What a store may expose

Asking a container for its value changes the store: counters move on, and lazy values settle. So
which value a container exposes depends on what was asked before. What it **may** expose does not:
`Store.Exposes` tells, for a store, the values that a container may expose now or later, and a
store that is left after any number of queries exposes none but these (`Store.Later`).

Main facts: one step exposes a value that the container may expose (`Value.resolve_spec`), and
unwrapping reaches what such steps reach (`Value.unwrap_spec`). Both **come to an end**, as long as
no other thread keeps a lazy value for itself (`Store.Unshared`): the steps on a chain are limited,
and each force of a lazy value that asks for another one leaves fewer of them pending.
-/

namespace BeanStream

open Relation

namespace Store

variable (decls : Declarations) (s : Store)

/-- What a supplier may answer. -/
inductive Offers : Supply → Value → Prop
  | fixed (v) : Offers (.fixed (some v)) v
  | reading {box v} : s.box box = some v → Offers (.reading box) v
  | counting (counter n) : Offers (.counting counter) (.ofCount n)
  | alternating (counter v) : Offers (.alternating counter v) v
  | mapped {source f v w} : Offers source v → f.apply decls v = some w →
      Offers (.mapped source f) w

/-- What a lazy value may settle on, or has settled on. -/
inductive SettlesOn : Nat → Value → Prop
  | ready {cell v} : s.lazyState cell = .ready (some v) → SettlesOn cell v
  | fixed {cell v} : s.lazyState cell = .pending (.fixed (some v)) → SettlesOn cell v
  | reading {cell box v} : s.lazyState cell = .pending (.reading box) → s.box box = some v →
      SettlesOn cell v
  | forcing {cell box other v} : s.lazyState cell = .pending (.forcing box) →
      s.box box = some (.lazy other) → SettlesOn other v → SettlesOn cell v
  /-- Why another lazy value has no content. -/
  | message {cell box other} (text : String) : s.lazyState cell = .pending (.forcing box) →
      s.box box = some (.lazy other) → SettlesOn cell (.ofString text)
  | describing {cell box} (text : String) : s.lazyState cell = .pending (.describing box) →
      SettlesOn cell (.ofString text)
  | querying {cell box identity supply v} : s.lazyState cell = .pending (.querying box) →
      s.box box = some (.provider identity supply) → s.Offers decls supply v → SettlesOn cell v

/-- What a container may expose. -/
inductive Exposes : Value → Value → Prop
  | optional (item v) : Exposes (.optional item (some v)) v
  | shared (v) : Exposes (.shared v) v
  | boxed (v) : Exposes (.boxed v) v
  | property {cell v} : s.property cell = some v → Exposes (.property cell) v
  | file {cell p} : (s.file cell).get = some p → Exposes (.file cell) (.ofPath p)
  | provider {identity supply v} : s.Offers decls supply v → Exposes (.provider identity supply) v
  | producer {identity supply v} : s.Offers decls supply v → Exposes (.producer identity supply) v
  /-- What stands for nothing. -/
  | unit (identity supply) : Exposes (.producer identity supply) .unit
  | lazy {cell v} : s.SettlesOn decls cell v → Exposes (.lazy cell) v

/-- The store `s'` may be left after containers of `s` were asked for their values. -/
structure Later (s' : Store) : Prop where
  properties : s'.properties = s.properties
  files : s'.files = s.files
  boxes : s'.boxes = s.boxes
  mappings : s'.mappings = s.mappings
  /-- What has begun since is begun on behalf of the same thread. -/
  forcing : ∀ {cell owner}, s'.lazyState cell = .forcing owner →
    owner = mainThread ∨ s.lazyState cell = .forcing owner
  /-- What is not begun has not changed. -/
  pending : ∀ {cell init}, s'.lazyState cell = .pending init → s.lazyState cell = .pending init
  /-- What has settled is what could be expected. -/
  ready : ∀ {cell v}, s'.lazyState cell = .ready (some v) → s.SettlesOn decls cell v

namespace Later

variable {decls} {s s' s'' : Store}

/-- Before anything was asked. -/
theorem refl (s : Store) : s.Later decls s :=
  ⟨rfl, rfl, rfl, rfl, .inr, id, .ready⟩

theorem property (h : s.Later decls s') (cell : Nat) : s'.property cell = s.property cell := by
  rw [Store.property, Store.property, h.properties]

theorem file (h : s.Later decls s') (cell : Nat) : s'.file cell = s.file cell := by
  rw [Store.file, Store.file, h.files]

theorem box (h : s.Later decls s') (n : Nat) : s'.box n = s.box n := by
  rw [Store.box, Store.box, h.boxes]

theorem conventionValue (h : s.Later decls s') (n : Nat) (name : String) :
    s'.conventionValue n name = s.conventionValue n name := by
  rw [Store.conventionValue, Store.conventionValue, Store.mapping, Store.mapping, h.mappings]

/-- Later, suppliers offer the same. -/
theorem offers (h : s.Later decls s') {supply : Supply} {v : Value}
    (offers : s'.Offers decls supply v) : s.Offers decls supply v := by
  -- only a box is looked up in the store, and boxes stay as they are
  induction offers with
  | fixed v => exact .fixed v
  | reading content => exact .reading (h.box _ ▸ content)
  | counting counter n => exact .counting counter n
  | alternating counter v => exact .alternating counter v
  | mapped _ apply ih => exact .mapped ih apply

/-- Later, lazy values settle on nothing new. -/
theorem settlesOn (h : s.Later decls s') {cell : Nat} {v : Value}
    (settles : s'.SettlesOn decls cell v) : s.SettlesOn decls cell v := by
  -- what has settled since may have settled on anything that was expected; all else is unchanged
  induction settles with
  | ready state => exact h.ready state
  | fixed state => exact .fixed (h.pending state)
  | reading state content => exact .reading (h.pending state) (h.box _ ▸ content)
  | forcing state content _ ih => exact .forcing (h.pending state) (h.box _ ▸ content) ih
  | message text state content => exact .message text (h.pending state) (h.box _ ▸ content)
  | describing text state => exact .describing text (h.pending state)
  | querying state content offers =>
    exact .querying (h.pending state) (h.box _ ▸ content) (h.offers offers)

/-- Later, nothing new is exposed. -/
theorem exposes (h : s.Later decls s') {v w : Value} (exposes : s'.Exposes decls v w) :
    s.Exposes decls v w := by
  cases exposes with
  | optional item => exact .optional item w
  | shared => exact .shared w
  | boxed => exact .boxed w
  | property content => exact .property (h.property _ ▸ content)
  | file location => exact .file (h.file _ ▸ location)
  | provider offers => exact .provider (h.offers offers)
  | producer offers => exact .producer (h.offers offers)
  | unit identity supply => exact .unit identity supply
  | lazy settles => exact .lazy (h.settlesOn settles)

theorem trans (h : s.Later decls s') (h' : s'.Later decls s'') : s.Later decls s'' where
  properties := h'.properties.trans h.properties
  files := h'.files.trans h.files
  boxes := h'.boxes.trans h.boxes
  mappings := h'.mappings.trans h.mappings
  forcing state := (h'.forcing state).elim .inl h.forcing
  pending state := h.pending (h'.pending state)
  ready state := h.settlesOn (h'.ready state)

/-- What was reached later can be reached. -/
theorem reaches (h : s.Later decls s') {v w : Value}
    (reaches : ReflTransGen (s'.Exposes decls) v w) : ReflTransGen (s.Exposes decls) v w :=
  ReflTransGen.mono (fun _ _ => h.exposes) v w reaches

/-- The progress of one lazy value may change to what could be expected of it. -/
theorem setLazy (h : s.Later decls s') {cell : Nat} {state : LazyState}
    (begun : state.isPending = false) (own : ∀ owner, state = .forcing owner → owner = mainThread)
    (ready : ∀ v, state = .ready (some v) → s.SettlesOn decls cell v) :
    s.Later decls (s'.setLazy cell state) := by
  have lazyState (other : Nat) : (s'.setLazy cell state).lazyState other =
      if other = cell then state else s'.lazyState other := by
    rw [Store.lazyState, Store.setLazy, Table.get?_set]
    split <;> rfl
  refine ⟨h.properties, h.files, h.boxes, h.mappings, fun {other owner} found => ?_,
    fun {other init} found => ?_, fun {other v} found => ?_⟩
  -- at the cell that is set, what is given applies; at every other one, what was known before
  · rw [lazyState] at found
    split at found
    · exact .inl (own owner found)
    · exact h.forcing found
  · rw [lazyState] at found
    split at found
    · rw [found] at begun
      cases begun
    · exact h.pending found
  · rw [lazyState] at found
    split at found
    · rename_i same
      exact same ▸ ready v found
    · exact h.ready found

end Later

/-! ### Computations on a store -/

variable {α β : Type}

/-- No other thread is at work on a lazy value. -/
def Unshared (s : Store) : Prop :=
  ∀ {cell owner}, s.lazyState cell = .forcing owner → owner = mainThread

/-- Nobody else starts to work on lazy values. -/
theorem Later.unshared {decls : Declarations} {s s' : Store} (h : s.Later decls s')
    (unshared : s.Unshared) : s'.Unshared :=
  fun state => (h.forcing state).elim id unshared

/-- A computation on the store `s` comes to what satisfies `P` and leaves a later store, unless it
is aborted: by something that panics, where no other thread is at work. -/
def Yields (decls : Declarations) (s : Store) (P : α → Prop) : EStateM.Result Abort Store α → Prop
  | .ok a s' => s.Later decls s' ∧ P a
  | .error reason _ => s.Unshared → reason = .panic

namespace Yields

variable {decls : Declarations} {s : Store} {P Q : α → Prop} {R : β → Prop}

theorem imp {r : EStateM.Result Abort Store α} (h : s.Yields decls P r) (weaker : ∀ a, P a → Q a) :
    s.Yields decls Q r := by
  rcases r with ⟨a, s'⟩ | ⟨reason, s'⟩
  · exact ⟨h.1, weaker a h.2⟩
  · exact h

/-- What was yielded by a later store is yielded by an earlier one. -/
theorem of_later {s' : Store} {r : EStateM.Result Abort Store α} (later : s.Later decls s')
    (h : s'.Yields decls P r) : s.Yields decls P r := by
  rcases r with ⟨a, s''⟩ | ⟨reason, s''⟩
  · exact ⟨later.trans h.1, h.2⟩
  · exact fun unshared => h (later.unshared unshared)

theorem bind {x : StoreM α} {f : α → StoreM β} (first : s.Yields decls P (x s))
    (next : ∀ a s', s.Later decls s' → P a → s.Yields decls R (f a s')) :
    s.Yields decls R ((x >>= f) s) := by
  change s.Yields decls R (EStateM.bind x f s)
  rw [EStateM.bind]
  generalize x s = r at first
  rcases r with ⟨a, s'⟩ | ⟨reason, s'⟩
  · exact next a s' first.1 first.2
  · exact first

end Yields

/-- A counter moves on. -/
theorem later_count (decls : Declarations) (counters : Table Nat Nat) (s : Store) :
    s.Later decls { s with counters } :=
  ⟨rfl, rfl, rfl, rfl, .inr, id, fun state => .ready state⟩

end Store

/-- What comes of a query is on offer. -/
theorem Supply.query_spec (decls : Declarations) (supply : Supply) (s : Store) :
    s.Yields decls (fun answer => ∀ v, answer = some v → s.Offers decls supply v)
      (supply.query decls s) := by
  induction supply using Supply.query.induct generalizing s with
  | case1 v => exact ⟨.refl s, fun w found => found ▸ .fixed w⟩
  | case2 box => exact ⟨.refl s, fun v found => .reading found⟩
  | case3 counter =>
    refine ⟨Store.later_count decls _ s, ?_⟩
    rintro v ⟨⟩
    exact .counting counter _
  | case4 counter v =>
    refine ⟨Store.later_count decls _ s, fun w found => ?_⟩
    split at found
    · cases found
    · cases found
      exact .alternating counter v
  | case5 => exact fun _ => rfl
  | case6 source f ih =>
    refine (ih s).bind fun answer s' later asked => ⟨later, fun w found => ?_⟩
    obtain ⟨v, rfl, apply⟩ := Option.bind_eq_some_iff.1 found
    exact .mapped (asked v rfl) apply

/-- What is produced is on offer, or stands for nothing. -/
theorem Supply.produce_spec (decls : Declarations) (supply : Supply) (s : Store) :
    s.Yields decls (fun v => s.Offers decls supply v ∨ v = .unit) (supply.produce decls s) := by
  refine (query_spec decls supply s).bind fun answer s' later offered => ⟨later, ?_⟩
  rcases answer with _ | v
  · exact .inr rfl
  · exact .inl (offered v rfl)

namespace LazyState

variable {thread : Nat} {state : LazyState}

/-- An initializer is started for a lazy value that is not begun. -/
theorem pending_of_start {init : Initializer} (h : state.arrive thread = .start init) :
    state = .pending init := by
  cases state with
  | pending own =>
    cases h
    rfl
  | forcing owner =>
    rw [arrive] at h
    split at h <;> cases h
  | ready content => cases h
  | poisoned => cases h

/-- What is answered at once is what the lazy value has settled on. -/
theorem ready_of_answer {content : Option Value}
    (h : state.arrive thread = .answer (.ok content)) : state = .ready content := by
  cases state with
  | pending init => cases h
  | forcing owner =>
    rw [arrive] at h
    split at h <;> cases h
  | ready own =>
    cases h
    rfl
  | poisoned => cases h

/-- What is awaited is what another thread is at. -/
theorem forcing_of_wait (h : state.arrive thread = .wait) :
    ∃ owner, state = .forcing owner ∧ owner ≠ thread := by
  cases state with
  | pending init => cases h
  | forcing owner =>
    rw [arrive] at h
    split at h
    · cases h
    · exact ⟨owner, rfl, ‹_›⟩
  | ready content => cases h
  | poisoned => cases h

end LazyState

namespace Store

variable {decls : Declarations} {s : Store} {cell : Nat}

/-- What an initializer came to is what the lazy value settles on. -/
private theorem Yields.settle {r : EStateM.Result Abort Store (Option Value)}
    (h : s.Yields decls (fun content => ∀ v, content = some v → s.SettlesOn decls cell v) r) :
    s.Yields decls (fun outcome => ∀ v, outcome = .ok (some v) → s.SettlesOn decls cell v)
      (settle cell r) := by
  rcases r with ⟨content, s'⟩ | ⟨reason, s'⟩
  · obtain ⟨later, came⟩ := h
    refine ⟨later.setLazy rfl nofun fun v found => ?_, fun v found => ?_⟩
    · cases found
      exact came v rfl
    · cases found
      exact came v rfl
  · exact h

/-- What comes of a force is what the lazy value may settle on. -/
theorem force_spec (decls : Declarations) (cell : Nat) (s : Store) :
    s.Yields decls (fun outcome => ∀ v, outcome = .ok (some v) → s.SettlesOn decls cell v)
      (force decls mainThread cell s) := by
  -- a force that starts an initializer leaves fewer lazy values pending
  induction n : s.pendingCount using Nat.strongRecOn generalizing cell s with
  | _ n ih =>
  have begun : s.Later decls (s.setLazy cell (.forcing mainThread)) := by
    refine (Later.refl s).setLazy rfl ?_ ?_
    · rintro owner ⟨⟩
      rfl
    · rintro v ⟨⟩
  rw [force]
  split
  · rename_i outcome arrival
    refine ⟨.refl s, ?_⟩
    rintro v rfl
    exact .ready (LazyState.ready_of_answer arrival)
  · rename_i arrival
    obtain ⟨owner, state, other⟩ := LazyState.forcing_of_wait arrival
    exact fun unshared => absurd (unshared state) other
  · rename_i init arrival
    have pending := LazyState.pending_of_start arrival
    refine Yields.settle ?_
    cases init with
    | fixed v => exact ⟨begun, fun w found => .fixed (found ▸ pending)⟩
    | reading box => exact ⟨begun, fun w found => .reading pending (begun.box box ▸ found)⟩
    | panicking => exact fun _ => rfl
    | forcing box =>
      dsimp only
      split
      · rename_i other content
        have held : s.box box = some (.lazy other) := begun.box box ▸ content
        have fewer : (s.setLazy cell (.forcing mainThread)).pendingCount < s.pendingCount :=
          pendingCount_setLazy_lt arrival
        have forced := ih _ (n ▸ fewer) other _ rfl
        generalize force decls mainThread other (s.setLazy cell (.forcing mainThread)) = r at forced
        rcases r with ⟨e | content, s'⟩ | ⟨reason, s'⟩
        · refine ⟨begun.trans forced.1, ?_⟩
          rintro v ⟨⟩
          exact .message _ pending held
        · refine ⟨begun.trans forced.1, ?_⟩
          rintro v rfl
          exact .forcing pending held (begun.settlesOn (forced.2 v rfl))
        · exact fun unshared => forced (begun.unshared unshared)
      · refine ⟨begun, ?_⟩
        rintro v ⟨⟩
    | describing box =>
      dsimp only
      split
      · refine ⟨begun, ?_⟩
        rintro v ⟨⟩
        exact .describing _ pending
      · refine ⟨begun, ?_⟩
        rintro v ⟨⟩
    | querying box =>
      dsimp only
      split
      · rename_i identity supply content
        have held : s.box box = some (.provider identity supply) := begun.box box ▸ content
        have asked := (Supply.query_spec decls supply _).of_later begun
        refine asked.imp fun answer offered v found => ?_
        exact .querying pending held (begun.offers (offered v found))
      · refine ⟨begun, ?_⟩
        rintro v ⟨⟩

end Store

/-! ### Steps and chains -/

namespace Value

variable {decls : Declarations}

/-- One step exposes what the container may expose. -/
theorem resolve_spec {v : Value} {d : Deferred} (shape : v.deferred? = some d) (s : Store) :
    s.Yields decls
      (fun outcome => ∀ step w, outcome = .ok step → step.content = some w → s.Exposes decls v w)
      ((d.resolve decls).run s) := by
  cases v with
  | scalar | custom | tree | sequence | bean => cases shape
  | optional item content =>
    cases shape
    rcases content with _ | w
    · refine ⟨.refl s, ?_⟩
      rintro step w ⟨⟩ ⟨⟩
    · refine ⟨.refl s, ?_⟩
      rintro step w ⟨⟩ ⟨⟩
      exact .optional item w
  | shared w =>
    cases shape
    refine ⟨.refl s, ?_⟩
    rintro step w ⟨⟩ ⟨⟩
    exact .shared w
  | boxed w =>
    cases shape
    refine ⟨.refl s, ?_⟩
    rintro step w ⟨⟩ ⟨⟩
    exact .boxed w
  | property cell =>
    cases shape
    refine ⟨.refl s, ?_⟩
    rintro step w ⟨⟩ found
    exact .property ((Step.content_ofOption _).symm.trans found)
  | file cell =>
    cases shape
    refine ⟨.refl s, ?_⟩
    rintro step w ⟨⟩ found
    obtain ⟨p, location, rfl⟩ :=
      Option.map_eq_some_iff.1 ((Step.content_ofOption _).symm.trans found)
    exact .file location
  -- the remaining containers are asked for more than what is in the store
  | lazy cell =>
    cases shape
    have forced := Store.force_spec decls cell s
    refine Store.Yields.bind forced fun outcome s' later settled => ?_
    rcases outcome with e | content
    · exact ⟨later, nofun⟩
    · refine ⟨later, ?_⟩
      rintro step w ⟨⟩ found
      rw [Step.content_ofOption] at found
      exact .lazy (settled w (found ▸ rfl))
  | provider identity supply =>
    cases shape
    change s.Yields decls _
      ((ExceptT.lift (supply.query decls) >>= fun v => pure (Step.ofOption v)).run s)
    rw [ExceptT.run_bind_lift]
    refine (Supply.query_spec decls supply s).bind fun answer s' later offered => ⟨later, ?_⟩
    rintro step w ⟨⟩ found
    rw [Step.content_ofOption] at found
    exact .provider (offered w found)
  | producer identity supply =>
    cases shape
    change s.Yields decls _
      ((ExceptT.lift (supply.produce decls) >>= fun v => pure (Step.shared v)).run s)
    rw [ExceptT.run_bind_lift]
    refine (Supply.produce_spec decls supply s).bind fun v s' later produced => ⟨later, ?_⟩
    rintro step w ⟨⟩ ⟨⟩
    rcases produced with offers | rfl
    · exact .producer offers
    · exact .unit identity supply

/-- The steps of a chain expose what the containers on it may expose. -/
theorem unwrapWithin_spec (decls : Declarations) (budget : Nat) (met : List Nat)
    (v : Option Value) (s : Store) :
    s.Yields decls
      (fun outcome => ∀ w, outcome = .ok (some w) →
        ∃ u, v = some u ∧ ReflTransGen (s.Exposes decls) u w)
      ((unwrapWithin decls budget met v).run s) := by
  -- the rest of a chain is unwrapped in the store that its first step leaves
  induction budget generalizing met v s with
  | zero =>
    rcases v with _ | v
    · exact ⟨.refl s, nofun⟩
    · rw [unwrapWithin]
      split
      · refine ⟨.refl s, ?_⟩
        rintro w ⟨⟩
        exact ⟨v, rfl, .refl⟩
      · exact ⟨.refl s, nofun⟩
  | succ budget ih =>
    rcases v with _ | v
    · exact ⟨.refl s, nofun⟩
    · rw [unwrapWithin]
      split
      · refine ⟨.refl s, ?_⟩
        rintro w ⟨⟩
        exact ⟨v, rfl, .refl⟩
      · rename_i d shape
        split
        · exact ⟨.refl s, nofun⟩
        · rw [ExceptT.run_bind]
          refine (resolve_spec shape s).bind fun outcome s' later exposes => ?_
          rcases outcome with e | step
          · exact ⟨later, nofun⟩
          · have rest := (ih (d.identity.toList ++ met) step.content s').of_later later
            refine rest.imp fun outcome reached w found => ?_
            obtain ⟨u, content, reaches⟩ := reached w found
            have first : s.Exposes decls v u := exposes step u rfl content
            exact ⟨v, rfl, .head first (later.reaches reaches)⟩

/-- Unwrapping reaches what can be reached. -/
theorem unwrap_spec (decls : Declarations) (v : Option Value) (s : Store) :
    s.Yields decls
      (fun outcome => ∀ w, outcome = .ok (some w) →
        ∃ u, v = some u ∧ ReflTransGen (s.Exposes decls) u w)
      ((unwrap decls v).run s) :=
  unwrapWithin_spec decls maxUnwrapDepth [] v s

end Value

end BeanStream
