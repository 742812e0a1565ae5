import BeanStream.Deferred
import Mathlib.Data.List.Nodup

/-!
# Chains of deferred values

Which containers an unwrapping opens, in which order, and how it ends, told by the single steps.
Steps that are repeated by hand **lead** from a value to another one through a row of containers
(`Value.Leads`); nobody counts them, and nobody minds a container that is met again. The **course**
of an unwrapping (`Value.Course`) is such a row: at most `maxUnwrapDepth` containers, no two of
them with one identity, and then an end. What comes last is settled, or it is a container that is
not opened, or one whose own step does not succeed.

Who asks which container, and who gets the answer, is not to be seen in an outcome. It is noted in
a log (`Value.unwrapWatched`), and without the log, nothing but the unwrapping is left
(`Value.forget_unwrapWatched`).

Main fact: what an unwrapping comes to is what its **course** comes to; the containers of the course
are the ones that are asked, each of them once and in their order, and an answer is handed on once
(`Value.unwrap_follows_course`).
-/

namespace BeanStream

/-- The identities of the containers in a row. -/
def Deferred.identities (ds : List Deferred) : List Nat := ds.filterMap identity

namespace Value

/-! ### Courses -/

/-- Single steps lead from `v` to `w`, through the containers `ds`. -/
inductive Leads (decls : Declarations) :
    Option Value → Store → List Deferred → Option Value → Store → Prop
  | here (v s) : Leads decls v s [] v s
  | step {v d s step s₁ ds w s'} (shape : v.deferred? = some d)
      (run : (v.unwrapStep decls).run s = .ok (.ok (some step)) s₁)
      (further : Leads decls step.content s₁ ds w s') : Leads decls (some v) s (d :: ds) w s'

/-- Absence and values that are not deferred are settled. -/
def Settled (w : Option Value) : Prop := ∀ u, w = some u → u.deferred? = none

/-- The results of an unwrapping. -/
abbrev Unwrapped : Type := EStateM.Result Abort Store (Except UnwrapError (Option Value))

/-- How it ends, behind the containers `ds`, with the container that was the last one to be asked,
if its own step did not succeed. -/
inductive Ends (decls : Declarations) (ds : List Deferred) :
    Option Value → Store → Option Deferred → Unwrapped → Prop
  | settled {w s} : Settled w → Ends decls ds w s none (.ok (.ok w) s)
  /-- There is one container too many. -/
  | tooDeep {u d s} : u.deferred? = some d → ds.length = maxUnwrapDepth →
      Ends decls ds (some u) s none (.ok (.error .tooDeep) s)
  /-- The next container has been met before. -/
  | reentrant {u d s n} : u.deferred? = some d → ds.length < maxUnwrapDepth →
      d.identity = some n → n ∈ Deferred.identities ds →
      Ends decls ds (some u) s none (.ok (.error (.reentrant d.kindName)) s)
  /-- The next container has a failure of its own. -/
  | failed {u d s e s'} : u.deferred? = some d → ds.length < maxUnwrapDepth →
      (∀ n, d.identity = some n → n ∉ Deferred.identities ds) →
      (u.unwrapStep decls).run s = .ok (.error e) s' →
      Ends decls ds (some u) s (some d) (.ok (.error e) s')
  /-- The next container does not return. -/
  | aborted {u d s a s'} : u.deferred? = some d → ds.length < maxUnwrapDepth →
      (∀ n, d.identity = some n → n ∉ Deferred.identities ds) →
      (u.unwrapStep decls).run s = .error a s' → Ends decls ds (some u) s (some d) (.error a s')

/-- The course of an unwrapping of `v`: the containers `ds` are opened, and then it ends. -/
inductive Course (decls : Declarations) (v : Option Value) (s : Store) (ds : List Deferred)
    (last : Option Deferred) (r : Unwrapped) : Prop
  | intro {w s'} (leads : Leads decls v s ds w s') (distinct : (Deferred.identities ds).Nodup)
      (within : ds.length ≤ maxUnwrapDepth) (ends : Ends decls ds w s' last r)

/-- One more step. -/
theorem Leads.snoc {decls : Declarations} {v : Option Value} {s s₁ s' : Store}
    {ds : List Deferred} {u : Value} {d : Deferred} {step : Step}
    (leads : Leads decls v s ds (some u) s₁) (shape : u.deferred? = some d)
    (run : (u.unwrapStep decls).run s₁ = .ok (.ok (some step)) s') :
    Leads decls v s (ds ++ [d]) step.content s' := by
  generalize reached : some u = w at leads
  induction leads with
  | here v s =>
    subst reached
    exact .step shape run (.here _ _)
  | step shape₁ run₁ _ ih => exact .step shape₁ run₁ (ih run reached)

/-- A step of a deferred value is the one of its container. -/
theorem run_unwrapStep {decls : Declarations} {v : Value} {d : Deferred}
    (shape : v.deferred? = some d) (s : Store) :
    (v.unwrapStep decls).run s =
      match (d.resolve decls).run s with
      | .ok (.ok step) s' => .ok (.ok (some step)) s'
      | .ok (.error e) s' => .ok (.error e) s'
      | .error a s' => .error a s' := by
  rw [unwrapStep, shape]
  change (some <$> d.resolve decls).run s = _
  rw [ExceptT.run_map]
  change EStateM.map _ _ s = _
  rw [EStateM.map]
  rcases (d.resolve decls).run s with ⟨e | step, s'⟩ | ⟨a, s'⟩ <;> rfl

/-! ### Watched unwrapping -/

/-- What is noted in the course of an unwrapping. -/
inductive Note where
  /-- A container is asked for its content. -/
  | asked (d : Deferred)
  /-- An answer is handed on. -/
  | handed (w : Option Value)

/-- A store, and what was noted. -/
structure Watched where
  store : Store
  log : List Note := []

section Watched

variable {α ρ : Type}

/-- A computation on the store, noted. -/
def noting (note : Note) (x : StoreM α) : EStateM Abort Watched α := fun t =>
  match x t.store with
  | .ok a s => .ok a { store := s, log := t.log ++ [note] }
  | .error a s => .error a { store := s, log := t.log ++ [note] }

variable (decls : Declarations) (f : Option Value → StoreM ρ)

/-- An unwrapping (`unwrapWithin`) that hands its answer on to `f`, and notes what it does. -/
def unwrapWatched :
    (budget : Nat) → (met : List Nat) → Option Value → EStateM Abort Watched (Except UnwrapError ρ)
  | _, _, none => .ok <$> noting (.handed none) (f none)
  | 0, _, some v =>
    match v.deferred? with
    | none => .ok <$> noting (.handed (some v)) (f (some v))
    | some _ => return .error .tooDeep
  | budget + 1, met, some v =>
    match v.deferred? with
    | none => .ok <$> noting (.handed (some v)) (f (some v))
    | some d =>
      if d.identity.any met.contains then return .error (.reentrant d.kindName)
      else do
        match ← noting (.asked d) (d.resolve decls).run with
        | .error e => return .error e
        | .ok step => unwrapWatched budget (d.identity.toList ++ met) step.content

/-- A result, handed on to `f` if it is an answer, behind what was noted before. -/
def handOn (log : List Note) :
    Unwrapped → EStateM.Result Abort Watched (Except UnwrapError ρ)
  | .ok (.ok w) s => (.ok <$> noting (.handed w) (f w) : EStateM _ _ _) { store := s, log }
  | .ok (.error e) s => .ok (.error e) { store := s, log }
  | .error a s => .error a { store := s, log }

/-- A result without what was noted. -/
def forget : EStateM.Result Abort Watched α → EStateM.Result Abort Store α
  | .ok a t => .ok a t.store
  | .error a t => .error a t.store

/-- What is noted at the end does not matter. -/
private theorem forget_noting (t : Watched) (w : Option Value) :
    forget ((.ok <$> noting (.handed w) (f w) : EStateM _ _ (Except UnwrapError ρ)) t) =
      forget (handOn f [] (.ok (.ok w) t.store)) := by
  change forget (EStateM.map _ _ t) = forget (EStateM.map _ _ _)
  rw [EStateM.map, EStateM.map, noting, noting]
  rcases f w t.store with ⟨b, s⟩ | ⟨a, s⟩ <;> rfl

/-- Without what was noted, a watched unwrapping is an unwrapping, with its answer handed on. -/
theorem forget_unwrapWatched (budget : Nat) (met : List Nat) (v : Option Value) (t : Watched) :
    forget (unwrapWatched decls f budget met v t) =
      forget (handOn f [] ((unwrapWithin decls budget met v).run t.store)) := by
  induction budget generalizing met v t with
  | zero =>
    rcases v with _ | v
    · exact forget_noting f t none
    · rw [unwrapWatched, unwrapWithin]
      rcases v.deferred? with _ | d
      · exact forget_noting f t (some v)
      · rfl
  | succ budget ih =>
    rcases v with _ | v
    · exact forget_noting f t none
    · rw [unwrapWatched, unwrapWithin]
      rcases v.deferred? with _ | d
      · exact forget_noting f t (some v)
      · dsimp only
        split
        · rfl
        · rw [ExceptT.run_bind]
          change forget (EStateM.bind _ _ t) = forget (handOn f [] (EStateM.bind _ _ t.store))
          rw [EStateM.bind, EStateM.bind, noting]
          rcases (d.resolve decls).run t.store with ⟨e | step, s⟩ | ⟨a, s⟩
          · rfl
          · exact ih _ _ _
          · rfl

/-- A result is the one that was handed on to nobody. -/
theorem forget_handOn_pure (log : List Note) (r : Unwrapped) :
    forget (handOn (ρ := Option Value) pure log r) = r := by
  rcases r with ⟨e | w, s⟩ | ⟨a, s⟩ <;> rfl

variable {decls} {f}

/-- A container that has not been met is asked, and then its content is unwrapped. -/
theorem unwrapWatched_succ {v : Value} {d : Deferred} (shape : v.deferred? = some d)
    {met : List Nat} (fresh : ∀ n, d.identity = some n → n ∉ met) (budget : Nat) (s : Store)
    (log : List Note) :
    unwrapWatched decls f (budget + 1) met (some v) { store := s, log } =
      match (v.unwrapStep decls).run s with
      | .ok (.ok step) s' =>
        unwrapWatched decls f budget (d.identity.toList ++ met) (step.bind Step.content)
          { store := s', log := log ++ [.asked d] }
      | .ok (.error e) s' => .ok (.error e) { store := s', log := log ++ [.asked d] }
      | .error a s' => .error a { store := s', log := log ++ [.asked d] } := by
  have unmet : ¬ d.identity.any met.contains = true := by
    rcases identity : d.identity with _ | n
    · simp
    · simpa using fresh n identity
  rw [run_unwrapStep shape, unwrapWatched, shape]
  dsimp only
  rw [if_neg unmet]
  change EStateM.bind _ _ _ = _
  rw [EStateM.bind, noting]
  rcases (d.resolve decls).run s with ⟨e | step, s'⟩ | ⟨a, s'⟩ <;> rfl

/-- The identities of a row, behind those that were met before. -/
private theorem identities_cons_append (d : Deferred) (ds : List Deferred) (met : List Nat) :
    (Deferred.identities (d :: ds)).reverse ++ met =
      (Deferred.identities ds).reverse ++ (d.identity.toList ++ met) := by
  rcases identity : d.identity with _ | n <;> simp [Deferred.identities, identity]

/-- A watched unwrapping opens the containers through which the steps lead, as long as it meets none
of them for the second time. -/
theorem unwrapWatched_of_leads {v w : Option Value} {s s' : Store} {ds : List Deferred}
    (leads : Leads decls v s ds w s') (budget : Nat) {met : List Nat}
    (distinct : ((Deferred.identities ds).reverse ++ met).Nodup) (log : List Note) :
    unwrapWatched decls f (ds.length + budget) met v { store := s, log } =
      unwrapWatched decls f budget ((Deferred.identities ds).reverse ++ met) w
        { store := s', log := log ++ ds.map .asked } := by
  -- what the first container adds to those that were met is taken off the row
  induction leads generalizing met log with
  | here v s => simp [Deferred.identities]
  | @step v d s step s₁ ds w s' shape run _ ih =>
    rw [identities_cons_append] at distinct ⊢
    have fresh : ∀ n, d.identity = some n → n ∉ met := fun n identity => by
      rw [identity] at distinct
      exact (List.nodup_cons.1 (List.nodup_append.1 distinct).2.1).1
    have budgets : (d :: ds).length + budget = ds.length + budget + 1 := by
      rw [List.length_cons]
      omega
    rw [budgets, unwrapWatched_succ shape fresh, run]
    dsimp only [Option.bind_some]
    rw [ih distinct, List.append_assoc]
    rfl

/-- What is settled is handed on. -/
theorem unwrapWatched_of_settled {w : Option Value} (settled : Settled w) (budget : Nat)
    (met : List Nat) (t : Watched) :
    unwrapWatched decls f budget met w t =
      (.ok <$> noting (.handed w) (f w) : EStateM _ _ _) t := by
  rcases w with _ | u
  · rw [unwrapWatched]
  · cases budget <;> rw [unwrapWatched, settled u rfl]

/-- At the end of a course, a watched unwrapping ends as the course does. -/
theorem unwrapWatched_of_ends {w : Option Value} {s : Store} {ds : List Deferred}
    {last : Option Deferred} {r : Unwrapped} (ends : Ends decls ds w s last r) (log : List Note) :
    unwrapWatched decls f (maxUnwrapDepth - ds.length) (Deferred.identities ds).reverse w
        { store := s, log } =
      handOn f (log ++ last.toList.map .asked) r := by
  have spare (within : ds.length < maxUnwrapDepth) :
      maxUnwrapDepth - ds.length = maxUnwrapDepth - ds.length - 1 + 1 := by omega
  cases ends with
  | settled settled =>
    rw [unwrapWatched_of_settled settled]
    simp [handOn]
  | tooDeep shape full =>
    rw [full, Nat.sub_self, unwrapWatched, shape]
    simp [handOn]
    rfl
  | @reentrant u d s n shape within identity met =>
    have any : d.identity.any (Deferred.identities ds).reverse.contains = true := by
      rw [identity]
      simpa using met
    rw [spare within, unwrapWatched, shape]
    dsimp only
    rw [if_pos any]
    simp [handOn]
    rfl
  | failed shape within fresh run =>
    have fresh := fun n identity => mt List.mem_reverse.1 (fresh n identity)
    rw [spare within, unwrapWatched_succ shape fresh, run]
    rfl
  | aborted shape within fresh run =>
    have fresh := fun n identity => mt List.mem_reverse.1 (fresh n identity)
    rw [spare within, unwrapWatched_succ shape fresh, run]
    rfl

/-- A watched unwrapping follows its course. -/
theorem unwrapWatched_of_course {v : Option Value} {s : Store} {ds : List Deferred}
    {last : Option Deferred} {r : Unwrapped} (course : Course decls v s ds last r)
    (log : List Note) :
    unwrapWatched decls f maxUnwrapDepth [] v { store := s, log } =
      handOn f (log ++ (ds ++ last.toList).map .asked) r := by
  obtain ⟨leads, distinct, within, ends⟩ := course
  have distinct : ((Deferred.identities ds).reverse ++ []).Nodup := by
    rw [List.append_nil]
    exact List.nodup_reverse.2 distinct
  have along := unwrapWatched_of_leads (f := f) leads (maxUnwrapDepth - ds.length) distinct log
  rw [Nat.add_sub_cancel' within, List.append_nil] at along
  rw [along, unwrapWatched_of_ends ends, List.append_assoc, List.map_append]

end Watched

/-! ### What unwrapping comes to -/

/-- A container that has not been met makes one more in a row of distinct ones. -/
private theorem nodup_identities_snoc {ds : List Deferred} {d : Deferred}
    (distinct : (Deferred.identities ds).Nodup)
    (fresh : ∀ n, d.identity = some n → n ∉ Deferred.identities ds) :
    (Deferred.identities (ds ++ [d])).Nodup := by
  rcases identity : d.identity with _ | n
  · simpa [Deferred.identities, identity] using distinct
  · have new := fresh n identity
    rw [Deferred.identities, List.filterMap_append, List.nodup_append]
    refine ⟨distinct, by simp [identity], fun a mem b same => ?_⟩
    have same : b = n := by simpa [identity] using same
    exact fun equal => new (same ▸ equal ▸ mem)

/-- Wherever steps have led to, this is the end, or there is one more step. -/
theorem ends_or_step (decls : Declarations) {ds : List Deferred}
    (within : ds.length ≤ maxUnwrapDepth) (w : Option Value) (s : Store) :
    (∃ last r, Ends decls ds w s last r) ∨
      ∃ u d step s', w = some u ∧ u.deferred? = some d ∧ ds.length < maxUnwrapDepth ∧
        (∀ n, d.identity = some n → n ∉ Deferred.identities ds) ∧
          (u.unwrapStep decls).run s = .ok (.ok (some step)) s' := by
  rcases w with _ | u
  · exact .inl ⟨_, _, .settled nofun⟩
  rcases shape : u.deferred? with _ | d
  · exact .inl ⟨_, _, .settled fun _ same => Option.some.inj same ▸ shape⟩
  rcases Nat.eq_or_lt_of_le within with full | spare
  · exact .inl ⟨_, _, .tooDeep shape full⟩
  by_cases met : ∃ n, d.identity = some n ∧ n ∈ Deferred.identities ds
  · obtain ⟨n, identity, met⟩ := met
    exact .inl ⟨_, _, .reentrant shape spare identity met⟩
  have fresh : ∀ n, d.identity = some n → n ∉ Deferred.identities ds :=
    fun n identity mem => met ⟨n, identity, mem⟩
  have run : (u.unwrapStep decls).run s = _ := run_unwrapStep shape s
  rcases resolved : (d.resolve decls).run s with ⟨e | step, s'⟩ | ⟨a, s'⟩ <;> rw [resolved] at run
  · exact .inl ⟨_, _, .failed shape spare fresh run⟩
  · exact .inr ⟨u, d, step, s', rfl, shape, spare, fresh, run⟩
  · exact .inl ⟨_, _, .aborted shape spare fresh run⟩

/-- Wherever steps have led to, it is on a course. -/
theorem exists_course {decls : Declarations} {v w : Option Value} {s s₁ : Store}
    {ds : List Deferred} (budget : Nat) (leads : Leads decls v s ds w s₁)
    (distinct : (Deferred.identities ds).Nodup) (spent : ds.length + budget = maxUnwrapDepth) :
    ∃ ds' last r, Course decls v s ds' last r := by
  -- each step that is taken leaves a budget that is smaller by one
  have within : ds.length ≤ maxUnwrapDepth := by omega
  induction budget generalizing w s₁ ds with
  | zero =>
    obtain ⟨last, r, ends⟩ | ⟨_, _, _, _, _, _, spare, _⟩ := ends_or_step decls within w s₁
    · exact ⟨ds, last, r, leads, distinct, within, ends⟩
    · omega
  | succ budget ih =>
    obtain ⟨last, r, ends⟩ | ⟨u, d, step, s', rfl, shape, spare, fresh, run⟩ :=
      ends_or_step decls within w s₁
    · exact ⟨ds, last, r, leads, distinct, within, ends⟩
    · have longer : (ds ++ [d]).length = ds.length + 1 := List.length_append
      exact ih (leads.snoc shape run) (nodup_identities_snoc distinct fresh) (by omega) (by omega)

/-- An unwrapping comes to what a course of it comes to. -/
theorem run_unwrap_of_course {decls : Declarations} {v : Option Value} {s : Store}
    {ds : List Deferred} {last : Option Deferred} {r : Unwrapped}
    (course : Course decls v s ds last r) : (unwrap decls v).run s = r := by
  have watched := forget_unwrapWatched decls pure maxUnwrapDepth [] v { store := s }
  rw [unwrapWatched_of_course course, forget_handOn_pure, forget_handOn_pure] at watched
  exact watched.symm

/-- The containers that are asked on a course are not too many, and distinct. -/
theorem Course.asked {decls : Declarations} {v : Option Value} {s : Store}
    {ds : List Deferred} {last : Option Deferred} {r : Unwrapped}
    (course : Course decls v s ds last r) :
    (ds ++ last.toList).length ≤ maxUnwrapDepth ∧
      (Deferred.identities (ds ++ last.toList)).Nodup := by
  obtain ⟨_, distinct, within, ends⟩ := course
  cases ends with
  | settled | tooDeep | reentrant => simpa using ⟨within, distinct⟩
  | failed _ spare fresh | aborted _ spare fresh =>
    exact ⟨by rwa [List.length_append], nodup_identities_snoc distinct fresh⟩

/-- What an unwrapping comes to is what its course comes to, so it **succeeds** if single steps lead
to what is settled, through containers that are distinct and not too many. The containers of the
course are asked, each of them once and in their order, and nobody else is; an answer is handed on
once, and a failure is not. -/
theorem unwrap_follows_course {ρ : Type} (decls : Declarations) (v : Option Value) (s : Store)
    (f : Option Value → StoreM ρ) :
    (∀ r, (unwrap decls v).run s = r ↔ ∃ ds last, Course decls v s ds last r) ∧
      (∀ w s', (unwrap decls v).run s = .ok (.ok w) s' ↔
        ∃ ds, Leads decls v s ds w s' ∧ Settled w ∧ ds.length ≤ maxUnwrapDepth ∧
          (Deferred.identities ds).Nodup) ∧
      ∀ ds last r, Course decls v s ds last r →
        (ds ++ last.toList).length ≤ maxUnwrapDepth ∧
          (Deferred.identities (ds ++ last.toList)).Nodup ∧
          unwrapWatched decls f maxUnwrapDepth [] v { store := s } =
            handOn f ((ds ++ last.toList).map .asked) r := by
  have courses (r : Unwrapped) :
      (unwrap decls v).run s = r ↔ ∃ ds last, Course decls v s ds last r := by
    refine ⟨fun run => ?_, fun ⟨_, _, course⟩ => run_unwrap_of_course course⟩
    obtain ⟨ds, last, r', course⟩ :=
      exists_course maxUnwrapDepth (.here v s) List.nodup_nil (Nat.zero_add _)
    exact ⟨ds, last, run ▸ run_unwrap_of_course course ▸ course⟩
  refine ⟨courses, fun w s' => (courses _).trans ⟨?_, ?_⟩, fun ds last r course => ?_⟩
  · rintro ⟨ds, last, leads, distinct, within, ends⟩
    cases ends with
    | settled settled => exact ⟨ds, leads, settled, within, distinct⟩
  · rintro ⟨ds, leads, settled, within, distinct⟩
    exact ⟨ds, none, leads, distinct, within, .settled settled⟩
  · exact ⟨course.asked.1, course.asked.2, unwrapWatched_of_course course []⟩

end Value

end BeanStream
