import BeanStream.Proofs.Store.Purity

/-!
# What remains of a store

While containers are asked for their values, counters move on and lazy values settle. What remains
of the store is that every pure lazy value is as it was, or has settled **on what it holds**
(`Store.Kept`); the others may have become anything. Nothing that is asked of a store changes that
(`Kept.unwrap`, `Kept.force`), not even what ends in a panic.

So whatever was asked before, to unwrap a pure value **comes to the same** (`exists_unwrap`).
-/

namespace BeanStream

open Relation

namespace Store

/-! ### Forcing a lazy value, by what is met -/

section Force

variable {decls : Declarations} {s : Store} {thread cell : Nat}

theorem lazyState_setLazy (s : Store) (cell other : Nat) (state : LazyState) :
    (s.setLazy cell state).lazyState other = if other = cell then state else s.lazyState other := by
  rw [lazyState, setLazy, Table.get?_set]
  split <;> rfl

/-- What an initializer comes to, with its lazy value begun. -/
def make (decls : Declarations) (thread : Nat) (init : Initializer) :
    StoreM (Option Value) := fun begun =>
  match init with
  | .fixed v => .ok v begun
  | .reading n => .ok (begun.box n) begun
  | .panicking => .error .panic begun
  | .forcing n =>
    match begun.box n with
    | some (.lazy other) =>
      match force decls thread other begun with
      | .ok (.ok content) s => .ok content s
      | .ok (.error e) s => .ok (some (.ofString e.message)) s
      | .error reason s => .error reason s
    | _ => .ok none begun
  | .describing n =>
    match begun.box n with
    | some (.lazy other) => .ok (some (.ofString (begun.lazyState other).description)) begun
    | _ => .ok none begun
  | .querying n =>
    match begun.box n with
    | some (.provider _ supply) => supply.query decls begun
    | _ => .ok none begun

/-- A force starts what is not begun. -/
theorem force_of_pending {init : Initializer} (h : s.lazyState cell = .pending init) :
    force decls thread cell s =
      settle cell (make decls thread init (s.setLazy cell (.forcing thread))) := by
  rw [force]
  split
  · rename_i outcome arrival
    rw [h] at arrival
    cases arrival
  · rename_i arrival
    rw [h] at arrival
    cases arrival
  · rename_i own arrival
    rw [h] at arrival
    cases arrival
    cases init <;> rfl

/-- What has settled is answered at once. -/
theorem force_of_ready {v : Option Value} (h : s.lazyState cell = .ready v) :
    force decls thread cell s = .ok (.ok v) s := by
  rw [force]
  split <;> rename_i arrival <;> rw [h] at arrival <;> cases arrival
  rfl

/-- What the same thread has begun is re-entrant. -/
theorem force_of_forcing (h : s.lazyState cell = .forcing thread) :
    force decls thread cell s = .ok (.error (.reentrant "lazy value")) s := by
  have arrives : (LazyState.forcing thread).arrive thread =
      .answer (.error (.reentrant "lazy value")) := by
    rw [LazyState.arrive, if_pos rfl]
  rw [force]
  split <;> rename_i arrival <;> rw [h, arrives] at arrival <;> cases arrival
  rfl

/-- What is begun already is left as it is. -/
theorem aftermath_force_of_begun (h : ∀ init, s.lazyState cell ≠ .pending init) :
    aftermath (force decls thread cell s) = s := by
  rw [force]
  split
  · rfl
  · rfl
  · rename_i init arrival
    exact absurd (LazyState.pending_of_start arrival) (h init)

/-- In the end, the lazy value has some progress or other. -/
theorem exists_aftermath_settle (cell : Nat) (r : EStateM.Result Abort Store (Option Value)) :
    ∃ state, aftermath (settle cell r) = (aftermath r).setLazy cell state := by
  rcases r with ⟨content, s⟩ | ⟨reason, s⟩
  · exact ⟨.ready content, rfl⟩
  · exact ⟨.poisoned, rfl⟩

theorem pendingCount_begin_lt {init : Initializer} (h : s.lazyState cell = .pending init)
    (thread : Nat) : (s.setLazy cell (.forcing thread)).pendingCount < s.pendingCount := by
  have started : (s.lazyState cell).arrive thread = .start init := by
    rw [h]
    rfl
  exact pendingCount_setLazy_lt started

end Force

/-! ### What remains -/

variable (decls : Declarations) (s : Store)

/-- What remains of `s` while the lazy values `begun` are at work for a thread. -/
structure Underway (thread : Nat) (begun : List Nat) (s' : Store) : Prop where
  properties : s'.properties = s.properties
  files : s'.files = s.files
  boxes : s'.boxes = s.boxes
  mappings : s'.mappings = s.mappings
  /-- A pure lazy value is as it was, or has settled on what it holds. -/
  lazies : ∀ {cell v}, s.Holds decls cell v → cell ∉ begun →
    s'.lazyState cell = s.lazyState cell ∨ s'.lazyState cell = .ready v
  begun : ∀ cell ∈ begun, s'.lazyState cell = .forcing thread

/-- What remains of `s` after containers were asked for their values. -/
def Kept (s' : Store) : Prop := ∀ thread, s.Underway decls thread [] s'

variable {decls} {s} {s' : Store} {thread cell : Nat} {begun : List Nat}

namespace Underway

theorem kept (h : s.Underway decls thread [] s') : s.Kept decls s' :=
  fun _ => { h with begun := fun _ none => nomatch none }

theorem box (h : s.Underway decls thread begun s') (n : Nat) : s'.box n = s.box n := by
  rw [Store.box, Store.box, h.boxes]

theorem counters (h : s.Underway decls thread begun s') (counters : Table Nat Nat) :
    s.Underway decls thread begun { s' with counters } :=
  ⟨h.properties, h.files, h.boxes, h.mappings, h.lazies, h.begun⟩

theorem start (h : s.Underway decls thread begun s') (cell : Nat) :
    s.Underway decls thread (cell :: begun) (s'.setLazy cell (.forcing thread)) := by
  refine ⟨h.properties, h.files, h.boxes, h.mappings, fun {other v} holds fresh => ?_,
    fun other mem => ?_⟩
  · obtain ⟨differs, fresh⟩ := not_or.1 (mt List.mem_cons.2 fresh)
    rw [lazyState_setLazy, if_neg differs]
    exact h.lazies holds fresh
  · rw [lazyState_setLazy]
    split
    · rfl
    · rename_i differs
      exact h.begun other ((List.mem_cons.1 mem).resolve_left differs)

/-- A pure lazy value settles on what it holds. -/
theorem finish (h : s.Underway decls thread (cell :: begun) s') (fresh : cell ∉ begun)
    {v : Option Value} (holds : s.Holds decls cell v) :
    s.Underway decls thread begun (s'.setLazy cell (.ready v)) := by
  refine ⟨h.properties, h.files, h.boxes, h.mappings, fun {other w} holds' fresh' => ?_,
    fun other mem => ?_⟩
  · rw [lazyState_setLazy]
    split
    · rename_i same
      subst same
      obtain rfl := holds.unique holds'
      exact .inr rfl
    · rename_i differs
      exact h.lazies holds' fun mem => (List.mem_cons.1 mem).elim differs fresh'
  · have differs : other ≠ cell := fun same => fresh (same ▸ mem)
    rw [lazyState_setLazy, if_neg differs]
    exact h.begun other (List.mem_cons_of_mem cell mem)

/-- A lazy value that is not pure may become anything. -/
theorem setLazy (h : s.Underway decls thread [] s') (impure : ∀ v, ¬ s.Holds decls cell v)
    (state : LazyState) : s.Underway decls thread [] (s'.setLazy cell state) := by
  refine ⟨h.properties, h.files, h.boxes, h.mappings, fun {other v} holds fresh => ?_,
    fun _ none => nomatch none⟩
  have differs : other ≠ cell := fun same => impure v (same ▸ holds)
  rw [lazyState_setLazy, if_neg differs]
  exact h.lazies holds fresh

/-- What an initializer makes by itself is made again. -/
theorem exists_make (h : s.Underway decls thread begun s') {init : Initializer}
    {v : Option Value} (makes : s.Makes decls init v) :
    ∃ s'', make decls thread init s' = .ok v s'' ∧ s.Underway decls thread begun s'' := by
  cases makes with
  | fixed => exact ⟨s', rfl, h⟩
  | reading n =>
    refine ⟨s', ?_, h⟩
    rw [make, h.box]
  | querying content supplies =>
    obtain ⟨counters, asked⟩ := supplies s' h.boxes
    refine ⟨_, ?_, h.counters counters⟩
    simp only [make, h.box, content, asked]
  | forcing empty | describing empty | nobody empty =>
    refine ⟨s', ?_, h⟩
    simp only [make, h.box]

/-- Whatever was asked before, a pure lazy value that is not at work answers what it holds. The
lazy values at work wait for it. -/
theorem exists_force (h : s.Underway decls thread begun s')
    (waiting : ∀ other ∈ begun, TransGen s.Forces other cell) {v : Option Value}
    (holds : s.Holds decls cell v) (fresh : cell ∉ begun) :
    ∃ s'', force decls thread cell s' = .ok (.ok v) s'' ∧ s.Underway decls thread begun s'' := by
  -- a force that starts an initializer leaves fewer lazy values pending
  induction n : s'.pendingCount using Nat.strongRecOn generalizing cell begun v s' with
  | _ n ih =>
  subst n
  rcases h.lazies holds fresh with state | state
  · rcases holds.cases with ready | ⟨init, pending, makes⟩ | ⟨other, ⟨box, pending, content⟩, asked⟩
    · exact ⟨s', force_of_ready (state.trans ready), h⟩
    · obtain ⟨s₂, made, under⟩ := (h.start cell).exists_make makes
      refine ⟨_, ?_, under.finish fresh holds⟩
      rw [force_of_pending (state.trans pending), made]
      rfl
    · have under := h.start cell
      have forces : s.Forces cell other := ⟨box, pending, content⟩
      have waiting' : ∀ g ∈ cell :: begun, TransGen s.Forces g other := by
        intro g mem
        rcases List.mem_cons.1 mem with rfl | mem
        · exact .single forces
        · exact (waiting g mem).tail forces
      obtain ⟨s₂, made, under₂⟩ : ∃ s₂, make decls thread (.forcing box)
          (s'.setLazy cell (.forcing thread)) = .ok v s₂ ∧
            s.Underway decls thread (cell :: begun) s₂ := by
        simp only [make, under.box, content]
        by_cases inside : other ∈ cell :: begun
        -- the circle is closed
        · obtain rfl := asked.eq_circular (waiting' other inside)
          rw [force_of_forcing (under.begun other inside)]
          exact ⟨_, rfl, under⟩
        · have fewer := pendingCount_begin_lt (state.trans pending) thread
          obtain ⟨s₂, forced, under₂⟩ := ih _ fewer under waiting' asked inside rfl
          rw [forced]
          exact ⟨s₂, rfl, under₂⟩
      refine ⟨_, ?_, under₂.finish fresh holds⟩
      rw [force_of_pending (state.trans pending), made]
      rfl
  · exact ⟨s', force_of_ready state, h⟩

end Underway

namespace Kept

theorem refl (s : Store) : s.Kept decls s :=
  fun _ => ⟨rfl, rfl, rfl, rfl, fun _ _ => .inl rfl, fun _ none => nomatch none⟩

theorem property (h : s.Kept decls s') (cell : Nat) : s'.property cell = s.property cell := by
  rw [Store.property, Store.property, (h mainThread).properties]

theorem file (h : s.Kept decls s') (cell : Nat) : s'.file cell = s.file cell := by
  rw [Store.file, Store.file, (h mainThread).files]

theorem conventionValue (h : s.Kept decls s') (n : Nat) (name : String) :
    s'.conventionValue n name = s.conventionValue n name := by
  rw [Store.conventionValue, Store.conventionValue, mapping, mapping, (h mainThread).mappings]

/-- A query moves counters on. -/
theorem query (h : s.Kept decls s') (supply : Supply) :
    s.Kept decls (aftermath (supply.query decls s')) := by
  obtain ⟨counters, asked⟩ := exists_counters_query decls supply s'
  rw [asked]
  exact fun thread => (h thread).counters counters

/-- Forcing a lazy value, be it pure or not, leaves the pure ones on what they hold. -/
theorem force (h : s.Kept decls s') (thread cell : Nat) :
    s.Kept decls (aftermath (Store.force decls thread cell s')) := by
  induction n : s'.pendingCount using Nat.strongRecOn generalizing cell s' with
  | _ n ih =>
  subst n
  by_cases pure : ∃ v, s.Holds decls cell v
  · obtain ⟨v, holds⟩ := pure
    obtain ⟨s₂, forced, under⟩ :=
      (h thread).exists_force (fun _ none => nomatch none) holds (List.not_mem_nil)
    rw [forced]
    exact under.kept
  · have impure : ∀ v, ¬ s.Holds decls cell v := fun v holds => pure ⟨v, holds⟩
    by_cases started : ∃ init, s'.lazyState cell = .pending init
    · obtain ⟨init, pending⟩ := started
      obtain ⟨state, settled⟩ := exists_aftermath_settle cell
        (make decls thread init (s'.setLazy cell (.forcing thread)))
      have begun : s.Kept decls (s'.setLazy cell (.forcing thread)) :=
        fun t => (h t).setLazy impure _
      rw [force_of_pending pending, settled]
      -- the initializer is at work on a store of which the same remains
      have made : s.Kept decls
          (aftermath (make decls thread init (s'.setLazy cell (.forcing thread)))) := by
        cases init with
        | fixed | reading | panicking => exact begun
        | describing n =>
          simp only [make]
          split <;> exact begun
        | querying n =>
          simp only [make]
          split
          · exact begun.query _
          · exact begun
        | forcing n =>
          simp only [make]
          split
          · rename_i other content
            have forced := ih _ (pendingCount_begin_lt pending thread) begun other rfl
            generalize Store.force decls thread other (s'.setLazy cell (.forcing thread)) = r
              at forced
            rcases r with ⟨e | content, s₂⟩ | ⟨reason, s₂⟩ <;> exact forced
          · exact begun
      exact fun t => (made t).setLazy impure state
    · rw [aftermath_force_of_begun fun init pending => started ⟨init, pending⟩]
      exact h

/-- So does any step, be the container pure or not. -/
theorem resolve (h : s.Kept decls s') (d : Deferred) :
    s.Kept decls (aftermath ((d.resolve decls).run s')) := by
  cases d with
  | optional content =>
    rcases content with _ | v
    · exact h
    · exact h
  | file cell => exact h
  | property cell => exact h
  | provider identity supply =>
    have asked := h.query supply
    change s.Kept decls (aftermath ((ExceptT.lift (supply.query decls) >>= _ :
      ExceptT UnwrapError StoreM Step).run s'))
    rw [ExceptT.run_bind_lift]
    change s.Kept decls (aftermath (EStateM.bind (supply.query decls) _ s'))
    rw [EStateM.bind]
    generalize supply.query decls s' = r at asked
    rcases r with ⟨v, s₂⟩ | ⟨reason, s₂⟩ <;> exact asked
  | producer identity supply =>
    have asked := h.query supply
    change s.Kept decls (aftermath ((ExceptT.lift (supply.produce decls) >>= _ :
      ExceptT UnwrapError StoreM Step).run s'))
    rw [ExceptT.run_bind_lift]
    change s.Kept decls (aftermath (EStateM.bind (EStateM.bind (supply.query decls) _) _ s'))
    rw [EStateM.bind, EStateM.bind]
    generalize supply.query decls s' = r at asked
    rcases r with ⟨v, s₂⟩ | ⟨reason, s₂⟩ <;> exact asked
  | lazy cell =>
    have forced := h.force mainThread cell
    change s.Kept decls (aftermath ((ExceptT.mk (Store.force decls mainThread cell) >>= _ :
      ExceptT UnwrapError StoreM Step).run s'))
    rw [ExceptT.run_bind]
    change s.Kept decls (aftermath (EStateM.bind (Store.force decls mainThread cell) _ s'))
    rw [EStateM.bind]
    generalize Store.force decls mainThread cell s' = r at forced
    rcases r with ⟨e | v, s₂⟩ | ⟨reason, s₂⟩ <;> exact forced

theorem unwrapWithin (h : s.Kept decls s') (budget : Nat) (met : List Nat) (v : Option Value) :
    s.Kept decls (aftermath ((Value.unwrapWithin decls budget met v).run s')) := by
  induction budget generalizing met v s' with
  | zero =>
    rcases v with _ | v
    · exact h
    · rw [Value.unwrapWithin]
      split <;> exact h
  | succ budget ih =>
    rcases v with _ | v
    · exact h
    · rw [Value.unwrapWithin]
      split
      · exact h
      · rename_i d shape
        split
        · exact h
        · have step := h.resolve d
          rw [ExceptT.run_bind]
          change s.Kept decls (aftermath (EStateM.bind (d.resolve decls).run _ s'))
          rw [EStateM.bind]
          generalize (d.resolve decls).run s' = r at step
          rcases r with ⟨e | next, s₂⟩ | ⟨reason, s₂⟩
          · exact step
          · exact ih step _ _
          · exact step

/-- Unwrapping a value, be it pure or not, leaves the pure lazy values on what they hold. -/
theorem unwrap (h : s.Kept decls s') (v : Option Value) :
    s.Kept decls (aftermath ((Value.unwrap decls v).run s')) :=
  h.unwrapWithin maxUnwrapDepth [] v

end Kept

/-! ### Unwrapping pure values -/

variable {codecs : CodecRegistry}

/-- A steady container exposes the same on every query. -/
theorem Steady.exists_resolve {v : Value} (h : s.Steady decls v) {d : Deferred}
    (shape : v.deferred? = some d) :
    ∃ step : Step, (∀ w, step.content = some w → s.Exposes decls v w) ∧
      ∀ s', s.Kept decls s' → ∃ s'', (d.resolve decls).run s' = .ok (.ok step) s'' := by
  cases v with
  | scalar | custom | tree | sequence | bean => cases shape
  | optional item content =>
    cases shape
    rcases content with _ | w
    · exact ⟨.absent, nofun, fun s' _ => ⟨s', rfl⟩⟩
    · refine ⟨.value w, ?_, fun s' _ => ⟨s', rfl⟩⟩
      rintro w ⟨⟩
      exact .optional item w
  | shared w =>
    cases shape
    refine ⟨.value w, ?_, fun s' _ => ⟨s', rfl⟩⟩
    rintro w ⟨⟩
    exact .shared w
  | boxed w =>
    cases shape
    refine ⟨.value w, ?_, fun s' _ => ⟨s', rfl⟩⟩
    rintro w ⟨⟩
    exact .boxed w
  | property cell =>
    cases shape
    refine ⟨.ofOption (s.property cell), fun w found => ?_, fun s' kept => ⟨s', ?_⟩⟩
    · rw [Step.content_ofOption] at found
      exact .property found
    · rw [← kept.property]
      rfl
  | file cell =>
    cases shape
    refine ⟨.ofOption ((s.file cell).get.map Value.ofPath), fun w found => ?_,
      fun s' kept => ⟨s', ?_⟩⟩
    · rw [Step.content_ofOption] at found
      obtain ⟨p, location, rfl⟩ := Option.map_eq_some_iff.1 found
      exact .file location
    · rw [← kept.file]
      rfl
  | lazy cell =>
    cases shape
    obtain ⟨v, holds⟩ := h
    refine ⟨.ofOption v, fun w found => ?_, fun s' kept => ?_⟩
    · rw [Step.content_ofOption] at found
      subst found
      exact .lazy holds.settlesOn
    · obtain ⟨s₂, forced, -⟩ :=
        (kept mainThread).exists_force (fun _ none => nomatch none) holds List.not_mem_nil
      refine ⟨s₂, ?_⟩
      change EStateM.bind (force decls mainThread cell) _ s' = _
      rw [EStateM.bind, forced]
      rfl
  | provider identity supply =>
    cases shape
    obtain ⟨v, supplies⟩ := h
    refine ⟨.ofOption v, fun w found => ?_, fun s' kept => ?_⟩
    · rw [Step.content_ofOption] at found
      subst found
      exact .provider supplies.offers
    · obtain ⟨counters, asked⟩ := supplies s' (kept mainThread).boxes
      refine ⟨{ s' with counters }, ?_⟩
      change ((ExceptT.lift (supply.query decls) >>= fun v => pure (Step.ofOption v) :
        ExceptT UnwrapError StoreM Step).run s') = _
      rw [ExceptT.run_bind_lift]
      change EStateM.bind (supply.query decls) _ s' = _
      rw [EStateM.bind, asked]
      rfl
  | producer identity supply =>
    cases shape
    obtain ⟨v, supplies⟩ := h
    refine ⟨.shared (v.getD .unit), ?_, fun s' kept => ?_⟩
    · rintro w ⟨⟩
      rcases v with _ | w
      · exact .unit identity supply
      · exact .producer supplies.offers
    · obtain ⟨counters, asked⟩ := supplies s' (kept mainThread).boxes
      refine ⟨{ s' with counters }, ?_⟩
      change ((ExceptT.lift (supply.produce decls) >>= fun v => pure (Step.shared v) :
        ExceptT UnwrapError StoreM Step).run s') = _
      rw [ExceptT.run_bind_lift]
      change EStateM.bind (EStateM.bind (supply.query decls) _) _ s' = _
      rw [EStateM.bind, EStateM.bind, asked]
      rfl

/-- Along a chain of pure containers, the same is met on every query. -/
theorem exists_unwrapWithin (budget : Nat) (met : List Nat) {v : Option Value}
    (h : ∀ u, v = some u → s.Pure decls codecs u) :
    ∃ outcome : Except UnwrapError (Option Value),
      (∀ w, outcome = .ok (some w) → s.Pure decls codecs w) ∧
        ∀ s', s.Kept decls s' →
          ∃ s'', (Value.unwrapWithin decls budget met v).run s' = .ok outcome s'' := by
  induction budget generalizing met v with
  | zero =>
    rcases v with _ | v
    · refine ⟨.ok none, ?_, fun s' _ => ⟨s', rfl⟩⟩
      rintro w ⟨⟩
    · rw [Value.unwrapWithin]
      split
      · refine ⟨.ok (some v), ?_, fun s' _ => ⟨s', rfl⟩⟩
        rintro w ⟨⟩
        exact h v rfl
      · refine ⟨.error .tooDeep, ?_, fun s' _ => ⟨s', rfl⟩⟩
        rintro w ⟨⟩
  | succ budget ih =>
    rcases v with _ | v
    · refine ⟨.ok none, ?_, fun s' _ => ⟨s', rfl⟩⟩
      rintro w ⟨⟩
    · have pure := h v rfl
      rw [Value.unwrapWithin]
      split
      · refine ⟨.ok (some v), ?_, fun s' _ => ⟨s', rfl⟩⟩
        rintro w ⟨⟩
        exact pure
      · rename_i d shape
        split
        · refine ⟨.error (.reentrant d.kindName), ?_, fun s' _ => ⟨s', rfl⟩⟩
          rintro w ⟨⟩
        · obtain ⟨step, exposes, resolved⟩ := pure.steady.exists_resolve shape
          have next : ∀ u, step.content = some u → s.Pure decls codecs u :=
            fun u found => pure.part (.exposed (exposes u found))
          obtain ⟨outcome, pure', rest⟩ := ih (d.identity.toList ++ met) next
          refine ⟨outcome, pure', fun s' kept => ?_⟩
          obtain ⟨s₁, first⟩ := resolved s' kept
          have kept₁ : s.Kept decls s₁ := by
            have left := kept.resolve d
            rw [first] at left
            exact left
          obtain ⟨s₂, last⟩ := rest s₁ kept₁
          refine ⟨s₂, ?_⟩
          rw [ExceptT.run_bind]
          change EStateM.bind (d.resolve decls).run _ s' = _
          rw [EStateM.bind, first]
          exact last

/-- Whatever was asked before, unwrapping a pure value comes to the same. -/
theorem exists_unwrap {v : Option Value} (h : ∀ u, v = some u → s.Pure decls codecs u) :
    ∃ outcome : Except UnwrapError (Option Value),
      (∀ w, outcome = .ok (some w) → s.Pure decls codecs w) ∧
        ∀ s', s.Kept decls s' → ∃ s'', (Value.unwrap decls v).run s' = .ok outcome s'' :=
  exists_unwrapWithin maxUnwrapDepth [] h

end Store

end BeanStream
