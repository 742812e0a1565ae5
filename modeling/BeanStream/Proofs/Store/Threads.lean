import BeanStream.Proofs.Store.Kept
import Mathlib.Data.List.Count

/-!
# A lazy value among threads

Any number of threads may force one lazy value, in any order. Each force inspects the progress of
the value while no other does (`LazyState.arrive`): it starts the initializer, comes back, or waits.
While the initializer runs, others may arrive, and it may itself force the value that it is to
initialize; threads that wait may wake up at any time, and inspect again. Each of these is an
`Action` on a `Scene`, and leaves one `Event`.

Whatever is done in which order, the events make up the **life** of the value (`Life`): it is
started; then others wait, and the thread that runs the initializer is told that it is re-entrant;
the initializer returns or panics; and from then on every force comes to one and the same. This is
what each action keeps (`Life.step`).

Main fact: the initializer is started at most once, and what it came to never changes
(`sound_of_run`). Forcing a lazy value of a store is such a row of actions for each of its lazy
values (`Store.exists_run_force`).
-/

namespace BeanStream

namespace LazyState

/-! ### What threads do -/

/-- A lazy value, and what threads are at. -/
structure Scene where
  state : LazyState
  /-- The threads that run the initializer. -/
  running : List Nat := []
  /-- The threads that wait. -/
  waiting : List Nat := []

/-- What may be done next. -/
inductive Action where
  /-- A thread that does not wait forces the value, be it from within the initializer. -/
  | force (thread : Nat)
  /-- A thread that waits wakes up. -/
  | wake (thread : Nat)
  /-- The initializer returns on a thread that runs it. -/
  | settle (thread : Nat) (content : Option Value)
  /-- The initializer panics on a thread that runs it. -/
  | panic (thread : Nat)

/-- What came of an action. -/
inductive Event where
  /-- A force starts the initializer. -/
  | started (thread : Nat)
  /-- A force comes back without that. -/
  | answered (thread : Nat) (outcome : Except UnwrapError (Option Value))
  /-- A force waits. -/
  | waits (thread : Nat)
  /-- The initializer returns, and so does the force that started it. -/
  | returned (thread : Nat) (content : Option Value)
  /-- The initializer panics, and so does the force that started it. -/
  | panicked (thread : Nat)

/-- Whether the initializer is started. -/
def Event.isStart : Event → Bool
  | .started _ => true
  | _ => false

/-- The force that is over with an event, and what it comes to. -/
def Event.outcome? : Event → Option (Nat × Except UnwrapError (Option Value))
  | .answered thread outcome => some (thread, outcome)
  | .returned thread content => some (thread, .ok content)
  | _ => none

namespace Scene

/-- A force on behalf of a thread inspects the value. -/
def inspect (thread : Nat) (s : Scene) : Event × Scene :=
  match s.state.arrive thread with
  | .start _ =>
    (.started thread, { s with state := .forcing thread, running := thread :: s.running })
  | .answer outcome => (.answered thread outcome, s)
  | .wait => (.waits thread, { s with waiting := thread :: s.waiting })

/-- What comes of an action, if it can be done. -/
def act : Action → Scene → Option (Event × Scene)
  | .force thread, s => if thread ∈ s.waiting then none else some (s.inspect thread)
  | .wake thread, s =>
    if thread ∈ s.waiting then
      some ({ s with waiting := s.waiting.erase thread }.inspect thread)
    else none
  | .settle thread content, s =>
    if thread ∈ s.running then
      some (.returned thread content,
        { s with state := .ready content, running := s.running.erase thread })
    else none
  | .panic thread, s =>
    if thread ∈ s.running then
      some (.panicked thread, { s with state := .poisoned, running := s.running.erase thread })
    else none

/-- A thread that runs the initializer may return from it. -/
theorem act_settle {s : Scene} {thread : Nat} (runs : thread ∈ s.running)
    (content : Option Value) : s.act (.settle thread content) = some (.returned thread content,
      { s with state := .ready content, running := s.running.erase thread }) :=
  if_pos runs

/-- A thread that runs the initializer may panic. -/
theorem act_panic {s : Scene} {thread : Nat} (runs : thread ∈ s.running) :
    s.act (.panic thread) = some (.panicked thread,
      { s with state := .poisoned, running := s.running.erase thread }) :=
  if_pos runs

end Scene

/-- Actions, one after another, with what came of them. -/
inductive Run (s : Scene) : List Event → Scene → Prop
  | refl : Run s [] s
  | step {events s' action event s''} (before : Run s events s')
    (acts : s'.act action = some (event, s'')) : Run s (events ++ [event]) s''

/-- How lazy values are made: with an initializer, or with a content. -/
inductive Begins : LazyState → Prop
  | new (init) : Begins (.pending init)
  | ready (content) : Begins (.ready content)

/-- A force of the thread that runs the initializer. -/
def reentrant : Except UnwrapError (Option Value) := .error (.reentrant "lazy value")

/-! ### What an action can come to -/

/-- What an action can come to. It depends on the progress of the value. -/
inductive Moves (s : Scene) : Event → Scene → Prop
  | start {init thread waiting} (state : s.state = .pending init) (fewer : waiting ⊆ s.waiting) :
    Moves s (.started thread) ⟨.forcing thread, thread :: s.running, waiting⟩
  | wait {owner thread waiting} (state : s.state = .forcing owner) (other : thread ≠ owner)
    (fewer : waiting ⊆ s.waiting) :
    Moves s (.waits thread) ⟨s.state, s.running, thread :: waiting⟩
  | nested {thread waiting} (state : s.state = .forcing thread) (fewer : waiting ⊆ s.waiting) :
    Moves s (.answered thread reentrant) ⟨s.state, s.running, waiting⟩
  | found {thread content waiting} (state : s.state = .ready content)
    (fewer : waiting ⊆ s.waiting) :
    Moves s (.answered thread (.ok content)) ⟨s.state, s.running, waiting⟩
  | broken {thread waiting} (state : s.state = .poisoned) (fewer : waiting ⊆ s.waiting) :
    Moves s (.answered thread (.error .poisoned)) ⟨s.state, s.running, waiting⟩
  | returns {owner} (content) (state : s.state = .forcing owner) :
    Moves s (.returned owner content)
      { s with state := .ready content, running := s.running.erase owner }
  | panics {owner} (state : s.state = .forcing owner) :
    Moves s (.panicked owner) { s with state := .poisoned, running := s.running.erase owner }

/-- Who runs the initializer, by the progress of the value. -/
def runners : LazyState → List Nat
  | .forcing owner => [owner]
  | _ => []

/-- The initializer runs on the thread that is noted for it, nobody waits for what is not begun, and
the thread that runs the initializer does not wait. -/
structure Calm (s : Scene) : Prop where
  running : s.running = s.state.runners
  nobody : ∀ init, s.state = .pending init → s.waiting = []
  awake : ∀ owner, s.state = .forcing owner → owner ∉ s.waiting

/-- The value is noted as begun on behalf of the threads that run the initializer. -/
theorem Calm.forcing_iff {s : Scene} (calm : Calm s) (thread : Nat) :
    s.state = .forcing thread ↔ thread ∈ s.running := by
  rw [calm.running]
  rcases s.state with init | owner | content | _ <;> simp [runners, eq_comm]

theorem moves_inspect {s : Scene} {waiting : List Nat} (fewer : waiting ⊆ s.waiting)
    (thread : Nat) :
    Moves s (({ s with waiting } : Scene).inspect thread).1
      (({ s with waiting } : Scene).inspect thread).2 := by
  rcases state : s.state with init | owner | content | _
  · simp only [Scene.inspect, arrive]
    exact .start state fewer
  · by_cases own : owner = thread
    · subst own
      simp only [Scene.inspect, arrive, if_true]
      exact state ▸ .nested state fewer
    · simp only [Scene.inspect, arrive, if_neg own]
      exact state ▸ .wait state (Ne.symm own) fewer
  · simp only [Scene.inspect, arrive]
    exact state ▸ .found state fewer
  · simp only [Scene.inspect, arrive]
    exact state ▸ .broken state fewer

theorem Calm.moves {s s' : Scene} (calm : Calm s) {action : Action} {event : Event}
    (acts : s.act action = some (event, s')) : Moves s event s' := by
  cases action with
  | force thread =>
    rw [Scene.act] at acts
    split at acts
    · cases acts
    · have moves := moves_inspect (s := s) (fun _ => id) thread
      rw [Option.some.inj acts] at moves
      exact moves
  | wake thread =>
    rw [Scene.act] at acts
    split at acts
    · have moves := moves_inspect (List.erase_subset (a := thread) (l := s.waiting)) thread
      rw [Option.some.inj acts] at moves
      exact moves
    · cases acts
  | settle thread content =>
    rw [Scene.act] at acts
    split at acts
    · rename_i runs
      cases acts
      exact .returns content ((calm.forcing_iff thread).2 runs)
    · cases acts
  | panic thread =>
    rw [Scene.act] at acts
    split at acts
    · rename_i runs
      cases acts
      exact .panics ((calm.forcing_iff thread).2 runs)
    · cases acts

/-- Who waits and who runs the initializer stays in order. -/
theorem Calm.step {s s' : Scene} {event : Event} (calm : Calm s) (moves : Moves s event s') :
    Calm s' := by
  have running := calm.running
  cases moves with
  | @start init thread waiting state fewer =>
    rw [state] at running
    refine ⟨congrArg (thread :: ·) running, nofun, fun owner _ mem => ?_⟩
    have nobody := fewer mem
    rw [calm.nobody init state] at nobody
    cases nobody
  | @wait owner thread waiting state other fewer =>
    refine ⟨running, fun init pending => (nomatch state.symm.trans pending),
      fun owner' forcing mem => ?_⟩
    cases state.symm.trans forcing
    rcases List.mem_cons.1 mem with same | mem
    · exact other same.symm
    · exact calm.awake owner state (fewer mem)
  | nested state fewer | found state fewer | broken state fewer =>
    refine ⟨running, fun init pending => (nomatch state.symm.trans pending),
      fun owner forcing mem => ?_⟩
    exact calm.awake owner forcing (fewer mem)
  | returns content state | panics state =>
    rw [state] at running
    refine ⟨?_, nofun, nofun⟩
    simp [running, runners]

theorem Calm.run {s s' : Scene} {events : List Event} (calm : Calm s) (run : Run s events s') :
    Calm s' := by
  induction run with
  | refl => exact calm
  | step before acts ih => exact ih.step (ih.moves acts)

theorem Begins.calm {start : LazyState} (begins : Begins start) : Calm { state := start } := by
  cases begins <;> exact ⟨rfl, fun _ _ => rfl, nofun⟩

/-! ### The life of a lazy value -/

/-- While the initializer runs, others wait, and its own thread is re-entrant. -/
def Meanwhile (owner : Nat) (events : List Event) : Prop :=
  ∀ e ∈ events, (∃ thread, e = .waits thread) ∨ e = .answered owner reentrant

/-- Every force comes to the same. -/
def Afterwards (outcome : Except UnwrapError (Option Value)) (events : List Event) : Prop :=
  ∀ e ∈ events, ∃ thread, e = .answered thread outcome

/-- What may have happened to a lazy value up to now, from how it was made to its progress. -/
inductive Life : LazyState → List Event → LazyState → Prop
  | new (init) : Life (.pending init) [] (.pending init)
  | running {owner events} (init) (meanwhile : Meanwhile owner events) :
    Life (.pending init) (.started owner :: events) (.forcing owner)
  | settled {owner events content later} (init) (meanwhile : Meanwhile owner events)
    (afterwards : Afterwards (.ok content) later) :
    Life (.pending init) (.started owner :: (events ++ .returned owner content :: later))
      (.ready content)
  | broken {owner events later} (init) (meanwhile : Meanwhile owner events)
    (afterwards : Afterwards (.error .poisoned) later) :
    Life (.pending init) (.started owner :: (events ++ .panicked owner :: later)) .poisoned
  | given {content events} (afterwards : Afterwards (.ok content) events) :
    Life (.ready content) events (.ready content)

theorem Meanwhile.concat {owner : Nat} {events : List Event} {e : Event}
    (h : Meanwhile owner events)
    (last : (∃ thread, e = .waits thread) ∨ e = .answered owner reentrant) :
    Meanwhile owner (events ++ [e]) := by
  intro e' mem
  rcases List.mem_append.1 mem with mem | mem
  · exact h e' mem
  · rw [List.mem_singleton.1 mem]
    exact last

theorem Afterwards.concat {outcome : Except UnwrapError (Option Value)} {events : List Event}
    (h : Afterwards outcome events) (thread : Nat) :
    Afterwards outcome (events ++ [.answered thread outcome]) := by
  intro e mem
  rcases List.mem_append.1 mem with mem | mem
  · exact h e mem
  · exact ⟨thread, List.mem_singleton.1 mem⟩

/-- Whatever is done next, life goes on. -/
theorem Life.step {start : LazyState} {events : List Event} {s s' : Scene} {event : Event}
    (life : Life start events s.state) (moves : Moves s event s') :
    Life start (events ++ [event]) s'.state := by
  cases moves with
  | start state =>
    rw [state] at life
    cases life with
    | new => exact .running _ nofun
  | wait state =>
    rw [state] at life ⊢
    cases life with
    | running init meanwhile => exact .running init (meanwhile.concat (.inl ⟨_, rfl⟩))
  | nested state =>
    rw [state] at life ⊢
    cases life with
    | running init meanwhile => exact .running init (meanwhile.concat (.inr rfl))
  | found state =>
    rw [state] at life ⊢
    cases life with
    | settled init meanwhile afterwards =>
      rw [List.cons_append, List.append_assoc, List.cons_append]
      exact .settled init meanwhile (afterwards.concat _)
    | given afterwards => exact .given (afterwards.concat _)
  | broken state =>
    rw [state] at life ⊢
    cases life with
    | broken init meanwhile afterwards =>
      rw [List.cons_append, List.append_assoc, List.cons_append]
      exact .broken init meanwhile (afterwards.concat _)
  | returns content state =>
    rw [state] at life
    cases life with
    | running init meanwhile => exact .settled init meanwhile nofun
  | panics state =>
    rw [state] at life
    cases life with
    | running init meanwhile => exact .broken init meanwhile nofun

/-- The life of a lazy value, after any actions. -/
theorem life_of_run {start : LazyState} (begins : Begins start) {events : List Event} {s : Scene}
    (run : Run { state := start } events s) : Life start events s.state := by
  induction run with
  | refl =>
    cases begins with
    | new init => exact .new init
    | ready content => exact .given nofun
  | step before acts ih => exact ih.step ((begins.calm.run before).moves acts)

/-! ### What is certain of a lazy value -/

/-- What has settled once stays so. -/
theorem Run.stays {s s' : Scene} {events : List Event} (run : Run s events s') (calm : Calm s) :
    (∀ content, s.state = .ready content → s'.state = .ready content) ∧
      (s.state = .poisoned → s'.state = .poisoned) := by
  induction run with
  | refl => exact ⟨fun _ => id, id⟩
  | @step events s' action event s'' before acts ih =>
    have moves := (calm.run before).moves acts
    refine ⟨fun content ready => ?_, fun poisoned => ?_⟩
    · have state := ih.1 content ready
      cases moves with
      | found | broken => exact state
      | start state' | wait state' | nested state' | returns _ state' | panics state' =>
        cases state.symm.trans state'
    · have state := ih.2 poisoned
      cases moves with
      | found | broken => exact state
      | start state' | wait state' | nested state' | returns _ state' | panics state' =>
        cases state.symm.trans state'

/-- What is certain of a lazy value, by what has happened to it. -/
structure Sound (start : LazyState) (events : List Event) (s : Scene) : Prop where
  /-- Its initializer was started once at most. -/
  once : events.countP Event.isStart ≤ 1
  /-- Each force that came to a content came to the one that is kept, -/
  memoized {e : Event} {thread : Nat} {content : Option Value} (happened : e ∈ events)
    (ok : e.outcome? = some (thread, .ok content)) : s.state = .ready content
  /-- which is the one that the initializer returned, if it was not there at once. -/
  made {content : Option Value} (ready : s.state = .ready content) :
    (∃ owner, .returned owner content ∈ events) ∨ start = .ready content
  /-- The initializer runs on the thread that started it, until it returns or panics, -/
  running (thread : Nat) : thread ∈ s.running ↔ .started thread ∈ events ∧
    ∀ owner, .panicked owner ∉ events ∧ ∀ content, .returned owner content ∉ events
  /-- and the value is noted as begun on behalf of this thread. -/
  noted (thread : Nat) : s.state = .forcing thread ↔ thread ∈ s.running
  /-- Only then, a force is re-entrant: one from within the initializer. It changes nothing. -/
  nested {action : Action} {e : Event} {s' : Scene} {thread : Nat} {kind : String}
    (acts : s.act action = some (e, s'))
    (found : e.outcome? = some (thread, .error (.reentrant kind))) :
    thread ∈ s.running ∧ action = .force thread ∧ s' = s
  /-- A force finds the value poisoned only after the initializer panicked, -/
  poisoned {action : Action} {e : Event} {s' : Scene} {thread : Nat}
    (acts : s.act action = some (e, s')) (found : e.outcome? = some (thread, .error .poisoned)) :
    ∃ owner, .panicked owner ∈ events
  /-- and then every force does, of those that arrive and of those that wait. -/
  spoiled {owner : Nat} (panicked : .panicked owner ∈ events) :
    (∀ {action e s'}, s.act action = some (e, s') →
        ∃ thread, e = .answered thread (.error .poisoned)) ∧
      (∀ thread, thread ∉ s.waiting →
        s.act (.force thread) = some (.answered thread (.error .poisoned), s)) ∧
      ∀ thread, thread ∈ s.waiting → s.act (.wake thread) =
        some (.answered thread (.error .poisoned), { s with waiting := s.waiting.erase thread })
  /-- What has settled stays so, whatever is done. -/
  stays {later : List Event} {s' : Scene} (run : Run s later s') :
    (∀ content, s.state = .ready content → s'.state = .ready content) ∧
      (s.state = .poisoned → s'.state = .poisoned)
  /-- The value is initialized exactly if it is ready. -/
  initialized : s.state.isInitialized = true ↔ ∃ content, s.state = .ready content

section Life

variable {start state : LazyState} {events : List Event}

/-- While the initializer runs, it is not started again, and no force comes to a content. -/
theorem Meanwhile.not_mem {owner : Nat} (h : Meanwhile owner events) {e : Event}
    (mem : e ∈ events) : e.isStart = false ∧ (∀ thread, e ≠ .panicked thread) ∧
      ∀ thread content, e.outcome? ≠ some (thread, .ok content) := by
  rcases h e mem with ⟨thread, rfl⟩ | rfl
  · exact ⟨rfl, nofun, nofun⟩
  · exact ⟨rfl, nofun, fun thread content same => by cases same⟩

/-- Nothing but answers follows. -/
theorem Afterwards.not_mem {outcome : Except UnwrapError (Option Value)}
    (h : Afterwards outcome events) {e : Event} (mem : e ∈ events) :
    e.isStart = false ∧ (∀ thread, e ≠ .panicked thread) ∧
      ∀ thread outcome', e.outcome? = some (thread, outcome') → outcome' = outcome := by
  obtain ⟨thread, rfl⟩ := h e mem
  refine ⟨rfl, nofun, fun thread' outcome' same => ?_⟩
  cases same
  rfl

theorem Life.countP_isStart_le (life : Life start events state) :
    events.countP Event.isStart ≤ 1 := by
  have none {events : List Event} (others : ∀ e ∈ events, e.isStart = false) :
      events.countP Event.isStart = 0 :=
    List.countP_eq_zero.2 fun e mem => Bool.eq_false_iff.1 (others e mem)
  cases life with
  | new => exact Nat.zero_le 1
  | running init meanwhile =>
    rw [List.countP_cons, none fun e mem => (meanwhile.not_mem mem).1]
    exact Nat.le_refl 1
  | settled init meanwhile afterwards =>
    rw [List.countP_cons, List.countP_append, List.countP_cons,
      none fun e mem => (meanwhile.not_mem mem).1, none fun e mem => (afterwards.not_mem mem).1]
    exact Nat.le_refl 1
  | broken init meanwhile afterwards =>
    rw [List.countP_cons, List.countP_append, List.countP_cons,
      none fun e mem => (meanwhile.not_mem mem).1, none fun e mem => (afterwards.not_mem mem).1]
    exact Nat.le_refl 1
  | given afterwards =>
    rw [none fun e mem => (afterwards.not_mem mem).1]
    exact Nat.zero_le 1

/-- A force that comes to a content finds the value ready. -/
theorem Life.ready_of_ok (life : Life start events state) {e : Event} {thread : Nat}
    {content : Option Value} (happened : e ∈ events)
    (ok : e.outcome? = some (thread, .ok content)) : state = .ready content := by
  cases life with
  | new => cases happened
  | running init meanwhile =>
    rcases List.mem_cons.1 happened with rfl | mem
    · cases ok
    · exact absurd ok ((meanwhile.not_mem mem).2.2 thread content)
  | settled init meanwhile afterwards =>
    simp only [List.mem_cons, List.mem_append] at happened
    rcases happened with rfl | mem | rfl | mem
    · cases ok
    · exact absurd ok ((meanwhile.not_mem mem).2.2 thread content)
    · cases ok
      rfl
    · cases (afterwards.not_mem mem).2.2 thread _ ok
      rfl
  | broken init meanwhile afterwards =>
    simp only [List.mem_cons, List.mem_append] at happened
    rcases happened with rfl | mem | rfl | mem
    · cases ok
    · exact absurd ok ((meanwhile.not_mem mem).2.2 thread content)
    · cases ok
    · cases (afterwards.not_mem mem).2.2 thread _ ok
  | given afterwards =>
    cases (afterwards.not_mem happened).2.2 thread _ ok
    rfl

/-- The initializer panicked exactly if the value is poisoned. -/
theorem Life.poisoned_iff (life : Life start events state) :
    state = .poisoned ↔ ∃ owner, .panicked owner ∈ events := by
  cases life with
  | new => simp
  | running init meanwhile =>
    refine ⟨nofun, fun ⟨owner, mem⟩ => ?_⟩
    have later := (List.mem_cons.1 mem).resolve_left nofun
    exact absurd rfl ((meanwhile.not_mem later).2.1 owner)
  | settled init meanwhile afterwards =>
    refine ⟨nofun, fun ⟨owner, mem⟩ => ?_⟩
    simp only [List.mem_cons, List.mem_append, reduceCtorEq, false_or] at mem
    rcases mem with mem | mem
    · exact absurd rfl ((meanwhile.not_mem mem).2.1 owner)
    · exact absurd rfl ((afterwards.not_mem mem).2.1 owner)
  | @broken owner => exact ⟨fun _ => ⟨owner, by simp⟩, fun _ => rfl⟩
  | given afterwards =>
    refine ⟨nofun, fun ⟨owner, mem⟩ => ?_⟩
    exact absurd rfl ((afterwards.not_mem mem).2.1 owner)

/-- What is ready was returned by the initializer, or was there at once. -/
theorem Life.returned_of_ready (life : Life start events state) {content : Option Value}
    (ready : state = .ready content) :
    (∃ owner, .returned owner content ∈ events) ∨ start = .ready content := by
  cases life with
  | new | running | broken => cases ready
  | @settled owner =>
    cases ready
    exact .inl ⟨owner, by simp⟩
  | given =>
    cases ready
    exact .inr rfl

/-- The initializer runs from its start until it returns or panics. -/
theorem Life.forcing_iff (life : Life start events state) (thread : Nat) :
    state = .forcing thread ↔ .started thread ∈ events ∧
      ∀ owner, .panicked owner ∉ events ∧ ∀ content, .returned owner content ∉ events := by
  constructor
  · intro running
    have goesOn (owner : Nat) :
        .panicked owner ∉ events ∧ ∀ content, .returned owner content ∉ events := by
      constructor
      · intro mem
        cases running.symm.trans (life.poisoned_iff.2 ⟨owner, mem⟩)
      · intro content mem
        cases running.symm.trans (life.ready_of_ok mem rfl)
    cases life with
    | new | settled | broken | given => cases running
    | running =>
      cases running
      exact ⟨List.mem_cons_self, goesOn⟩
  · rintro ⟨started, goesOn⟩
    cases life with
    | new => cases started
    | running init meanwhile =>
      rcases List.mem_cons.1 started with same | mem
      · cases same
        rfl
      · cases (meanwhile.not_mem mem).1
    | @settled owner events content later => exact absurd (by simp) ((goesOn owner).2 content)
    | @broken owner => exact absurd (by simp) (goesOn owner).1
    | given afterwards => cases (afterwards.not_mem started).1

end Life

/-- While the initializer runs, a force is re-entrant if it is made by the same thread, and waits if
it is not. -/
theorem Scene.inspect_of_forcing {s : Scene} {owner : Nat} (running : s.state = .forcing owner)
    (thread : Nat) :
    s.inspect thread =
      if owner = thread then (.answered thread reentrant, s)
      else (.waits thread, { s with waiting := thread :: s.waiting }) := by
  rw [inspect, running, arrive]
  by_cases own : owner = thread
  · rw [if_pos own, if_pos own]
    rfl
  · rw [if_neg own, if_neg own]

/-- A force that is re-entrant is made from within the initializer, and changes nothing. -/
theorem Calm.eq_of_reentrant {s s' : Scene} (calm : Calm s) {action : Action} {e : Event}
    {thread : Nat} {kind : String} (acts : s.act action = some (e, s'))
    (found : e.outcome? = some (thread, .error (.reentrant kind))) :
    thread ∈ s.running ∧ action = .force thread ∧ s' = s := by
  have running : s.state = .forcing thread := by
    cases calm.moves acts with
    | nested state =>
      cases found
      exact state
    | start | wait | found | broken | returns | panics => cases found
  refine ⟨(calm.forcing_iff thread).1 running, ?_⟩
  cases action with
  | force caller =>
    rw [Scene.act, Scene.inspect_of_forcing running] at acts
    split at acts
    · cases acts
    · split at acts <;> cases acts
      · rename_i own
        exact ⟨own ▸ rfl, rfl⟩
      · cases found
  | wake caller =>
    have inspects := Scene.inspect_of_forcing
      (s := { s with waiting := s.waiting.erase caller }) running caller
    rw [Scene.act, inspects] at acts
    split at acts
    · rename_i there
      split at acts <;> cases acts
      -- the thread that runs the initializer is not one of those that wait
      · rename_i own
        exact absurd (own ▸ there) (calm.awake thread running)
      · cases found
    · cases acts
  | settle | panic =>
    rw [Scene.act] at acts
    split at acts <;> cases acts
    cases found

/-- A poisoned value answers every force in one way. -/
theorem Calm.act_of_poisoned {s : Scene} (calm : Calm s) (state : s.state = .poisoned) :
    (∀ {action e s'}, s.act action = some (e, s') →
        ∃ thread, e = .answered thread (.error .poisoned)) ∧
      (∀ thread, thread ∉ s.waiting →
        s.act (.force thread) = some (.answered thread (.error .poisoned), s)) ∧
      ∀ thread, thread ∈ s.waiting → s.act (.wake thread) =
        some (.answered thread (.error .poisoned),
          { s with waiting := s.waiting.erase thread }) := by
  refine ⟨fun {action e s'} acts => ?_, fun thread away => ?_, fun thread there => ?_⟩
  · cases calm.moves acts with
    | broken => exact ⟨_, rfl⟩
    | start state' | wait state' | nested state' | found state' | returns _ state'
    | panics state' => cases state.symm.trans state'
  · rw [Scene.act, if_neg away, Scene.inspect, state]
    rfl
  · rw [Scene.act, if_pos there, Scene.inspect]
    simp only [state]
    rfl

/-- Whatever threads do to a lazy value, in any order. -/
theorem sound_of_run {start : LazyState} (begins : Begins start) {events : List Event} {s : Scene}
    (run : Run { state := start } events s) : Sound start events s := by
  have life := life_of_run begins run
  have calm := begins.calm.run run
  constructor
  case once => exact life.countP_isStart_le
  case memoized => exact fun happened ok => life.ready_of_ok happened ok
  case made => exact life.returned_of_ready
  case running =>
    intro thread
    rw [← calm.forcing_iff, life.forcing_iff]
  case noted => exact calm.forcing_iff
  case nested => exact calm.eq_of_reentrant
  case poisoned =>
    intro action e s' thread acts found
    have state : s.state = .poisoned := by
      cases calm.moves acts with
      | broken state => exact state
      | start | wait | nested | found | returns | panics => cases found
    exact life.poisoned_iff.1 state
  case spoiled => exact fun panicked => calm.act_of_poisoned (life.poisoned_iff.2 ⟨_, panicked⟩)
  case stays => exact fun run => run.stays calm
  case initialized =>
    rcases s.state with init | owner | content | _ <;> simp [isInitialized]

/-- One thread starts, another waits; the first is re-entrant, returns, and the second wakes up. -/
theorem sound_of_run_link :
    Begins (.pending (.fixed none)) ∧
      Run { state := .pending (.fixed none) }
        [.started 1, .waits 2, .answered 1 reentrant, .returned 1 none, .answered 2 (.ok none)]
        { state := .ready none } ∧
      Sound (.pending (.fixed none))
        [.started 1, .waits 2, .answered 1 reentrant, .returned 1 none, .answered 2 (.ok none)]
        { state := .ready none } := by
  have begins : Begins (.pending (.fixed none)) := .new (.fixed none)
  have run : Run { state := .pending (.fixed none) }
      [.started 1, .waits 2, .answered 1 reentrant, .returned 1 none, .answered 2 (.ok none)]
      { state := .ready none } := by
    have first : Run { state := .pending (.fixed none) } [.started 1] ⟨.forcing 1, [1], []⟩ :=
      .step .refl (rfl : Scene.act (.force 1) _ = _)
    have second := first.step (rfl : Scene.act (.force 2) _ = _)
    have third := second.step (rfl : Scene.act (.force 1) _ = _)
    have fourth := third.step (rfl : Scene.act (.settle 1 none) _ = _)
    exact fourth.step (rfl : Scene.act (.wake 2) _ = _)
  exact ⟨begins, run, sound_of_run begins run⟩

end LazyState

namespace Store

open LazyState

variable (decls : Declarations) (thread cell : Nat) (s : Store)

/-- Where nobody waits, a force inspects the value. -/
theorem run_inspect (state : LazyState) (thread : Nat) :
    Run { state } [(({ state } : Scene).inspect thread).1] (({ state } : Scene).inspect thread).2 :=
  .step .refl (rfl : Scene.act (.force thread) _ = _)

/-- What a force does to its own lazy value is a row of actions, the last of which tells what it
comes to. -/
theorem exists_run_force_self : ∃ events last scene,
    Run { state := s.lazyState cell } (events ++ [last]) scene ∧
      scene.state = (aftermath (force decls thread cell s)).lazyState cell ∧
      match answer (force decls thread cell s) with
      | .ok outcome => last.outcome? = some (thread, outcome)
      | .error _ => last = .waits thread ∨ last = .panicked thread := by
  have inspected := run_inspect (s.lazyState cell) thread
  rcases arrival : (s.lazyState cell).arrive thread with init | outcome | _
  · have forced : force decls thread cell s =
        settle cell (make decls thread init (s.setLazy cell (.forcing thread))) :=
      force_of_pending (pending_of_start arrival)
    simp only [Scene.inspect, arrival] at inspected
    rcases made : make decls thread init (s.setLazy cell (.forcing thread)) with
      ⟨content, s'⟩ | ⟨reason, s'⟩
    · have returned := inspected.step (Scene.act_settle List.mem_cons_self content)
      refine ⟨_, _, _, returned, ?_, ?_⟩
      · rw [forced, made, settle, aftermath, lazyState_setLazy, if_pos rfl]
      · rw [forced, made]
        rfl
    · have panicked := inspected.step (Scene.act_panic List.mem_cons_self)
      refine ⟨_, _, _, panicked, ?_, ?_⟩
      · rw [forced, made, settle, aftermath, lazyState_setLazy, if_pos rfl]
      · rw [forced, made]
        exact .inr rfl
  · have forced : force decls thread cell s = .ok outcome s := by
      rw [force]
      split <;> rename_i met <;> cases arrival.symm.trans met
      rfl
    simp only [Scene.inspect, arrival] at inspected
    exact ⟨[], _, _, inspected, by rw [forced, aftermath], by rw [forced]; rfl⟩
  · have forced : force decls thread cell s = .error .blocked s := by
      rw [force]
      split <;> rename_i met <;> cases arrival.symm.trans met
      rfl
    simp only [Scene.inspect, arrival] at inspected
    exact ⟨[], _, _, inspected, by rw [forced, aftermath], by rw [forced]; exact .inl rfl⟩

/-- What forcing a lazy value does to any of them, through initializers that force others, is a row
of actions. -/
theorem exists_run_force (other : Nat) : ∃ events scene,
    Run { state := s.lazyState other } events scene ∧
      scene.state = (aftermath (force decls thread cell s)).lazyState other := by
  -- a force that starts an initializer leaves fewer lazy values pending
  induction n : s.pendingCount using Nat.strongRecOn generalizing cell s with
  | _ n ih =>
  subst n
  by_cases own : other = cell
  · subst own
    obtain ⟨events, last, scene, run, state, -⟩ := exists_run_force_self decls thread other s
    exact ⟨_, scene, run, state⟩
  by_cases started : ∃ init, s.lazyState cell = .pending init
  · obtain ⟨init, pending⟩ := started
    obtain ⟨state, settled⟩ := exists_aftermath_settle cell
      (make decls thread init (s.setLazy cell (.forcing thread)))
    have untouched : (s.setLazy cell (.forcing thread)).lazyState other = s.lazyState other := by
      rw [lazyState_setLazy, if_neg own]
    rw [force_of_pending pending, settled, lazyState_setLazy, if_neg own, ← untouched]
    have idle : ∃ events scene, Run { state := (s.setLazy cell (.forcing thread)).lazyState other }
        events scene ∧ scene.state = (s.setLazy cell (.forcing thread)).lazyState other :=
      ⟨[], _, .refl, rfl⟩
    cases init with
    | fixed | reading | panicking => exact idle
    | describing n =>
      simp only [make]
      split <;> exact idle
    | querying n =>
      simp only [make]
      split
      · rename_i identity supply content
        obtain ⟨counters, asked⟩ :=
          exists_counters_query decls supply (s.setLazy cell (.forcing thread))
        rw [asked]
        exact idle
      · exact idle
    | forcing n =>
      simp only [make]
      split
      · rename_i next content
        have forced := ih _ (pendingCount_begin_lt pending thread) next _ rfl
        generalize force decls thread next (s.setLazy cell (.forcing thread)) = r at forced
        rcases r with ⟨e | content, s₂⟩ | ⟨reason, s₂⟩ <;> exact forced
      · exact idle
  · rw [aftermath_force_of_begun fun init pending => started ⟨init, pending⟩]
    exact ⟨[], _, .refl, rfl⟩

end Store

end BeanStream
