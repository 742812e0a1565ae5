import BeanStream.Pass

/-!
# What the computations of a pass end in

A computation of a pass ends in a value, in a failure, or is aborted, and leaves a machine
behind in each of these cases. An `Ending` is a requirement on all of them; `Meets x m E` says
that `x`, run on the machine `m`, ends as `E` requires.

Requirements are **pushed through a program from its end to its front**: there is one rule for
each way to put computations together, and one for each operation that is not made of others.
Every rule is an equivalence, so nothing is lost on the way. A requirement can be replaced by a
weaker one (`Meets.imp`).
-/

namespace BeanStream

open Wire

/-- A requirement on how a computation ends. -/
structure Ending (ε α : Type) (ω : Type := Encoder) where
  /-- What a value and the machine left behind have to satisfy. -/
  done : α → Machine ω → Prop
  /-- What a failure and the machine left behind have to satisfy. -/
  failed : ε → Machine ω → Prop
  /-- What is required where the computation is aborted. -/
  aborted : Abort → Machine ω → Prop

/-- What becomes of a computation. -/
abbrev Outcome (ε α : Type) (ω : Type := Encoder) :=
  EStateM.Result Abort (Machine ω) (Except ε α)

/-- Whether a requirement is met by what became of a computation. -/
def Ending.Holds {ω ε α : Type} (E : Ending ε α ω) : Outcome ε α ω → Prop
  | .ok (.ok a) m => E.done a m
  | .ok (.error e) m => E.failed e m
  | .error reason m => E.aborted reason m

/-- Whether a computation ended in a value. -/
def Outcome.isDone {ω ε α : Type} : Outcome ε α ω → Bool
  | .ok (.ok _) _ => true
  | _ => false

/-- Whether a computation failed. -/
def Outcome.isFailed {ω ε α : Type} : Outcome ε α ω → Bool
  | .ok (.error _) _ => true
  | _ => false

theorem Outcome.exists_of_isDone {ω ε α : Type} {r : Outcome ε α ω} (h : r.isDone = true) :
    ∃ a m, r = .ok (.ok a) m := by
  rcases r with ⟨e | a, m⟩ | ⟨reason, m⟩
  · cases h
  · exact ⟨a, m, rfl⟩
  · cases h

theorem Outcome.exists_of_isFailed {ω ε α : Type} {r : Outcome ε α ω} (h : r.isFailed = true) :
    ∃ e m, r = .ok (.error e) m := by
  rcases r with ⟨e | a, m⟩ | ⟨reason, m⟩
  · exact ⟨e, m, rfl⟩
  · cases h
  · cases h

namespace Machine

variable {ω : Type}

/-- The bytes that reached the output. -/
def written [Output ω] (m : Machine ω) : List UInt8 := Output.written m.encoder

/-- The machine with one more frame on its trace. -/
def enter (f : Frame) (m : Machine ω) : Machine ω := { m with trace := f :: m.trace }

/-- The machine without the innermost frame. -/
def leave (m : Machine ω) : Machine ω := { m with trace := m.trace.tail }

@[simp] theorem written_enter [Output ω] (f : Frame) (m : Machine ω) :
    (m.enter f).written = m.written := rfl

@[simp] theorem written_leave [Output ω] (m : Machine ω) : m.leave.written = m.written := rfl

@[simp] theorem trace_enter (f : Frame) (m : Machine ω) : (m.enter f).trace = f :: m.trace := rfl

@[simp] theorem trace_leave (m : Machine ω) : m.leave.trace = m.trace.tail := rfl

/-- Behind the body that it was put on for, a frame is taken off again. -/
theorem trace_leave_of_enter {f : Frame} {m m' : Machine ω} (h : m'.trace = (m.enter f).trace) :
    m'.leave.trace = m.trace := by
  rw [trace_leave, h, trace_enter, List.tail_cons]

end Machine

/-- Goes on with a value. -/
def Outcome.andThen {ω ε α β : Type} (r : Outcome ε α ω) (f : α → Machine ω → Outcome ε β ω) :
    Outcome ε β ω :=
  match r with
  | .ok (.ok a) m => f a m
  | .ok (.error e) m => .ok (.error e) m
  | .error reason m => .error reason m

theorem Outcome.andThen_congr {ω ε α β : Type} {r : Outcome ε α ω}
    {f g : α → Machine ω → Outcome ε β ω} (h : ∀ a m, r = .ok (.ok a) m → f a m = g a m) :
    r.andThen f = r.andThen g := by
  rcases r with ⟨e | a, m⟩ | ⟨reason, m⟩
  · rfl
  · exact h a m rfl
  · rfl

/-- Goes on with a value or a failure. -/
def Outcome.resume {ω ε δ α β : Type} (r : Outcome δ α ω)
    (f : Except δ α → Machine ω → Outcome ε β ω) : Outcome ε β ω :=
  match r with
  | .ok answer m => f answer m
  | .error reason m => .error reason m

/-- Takes the innermost frame off, unless the computation was aborted. -/
def Outcome.leave {ω ε α : Type} : Outcome ε α ω → Outcome ε α ω
  | .ok answer m => .ok answer m.leave
  | .error reason m => .error reason m

namespace Pass

variable {ω ε δ α β : Type} {m : Machine ω}

theorem run_bind {x : AttemptTo ω ε β} {f : β → AttemptTo ω ε α} :
    (x >>= f).run m = (Outcome.andThen (x.run m) fun b m' => (f b).run m') := by
  simp only [ExceptT.run_bind]
  change EStateM.bind _ _ _ = _
  rw [EStateM.bind]
  rcases x.run m with ⟨e | b, m'⟩ | ⟨reason, m'⟩ <;> rfl

/-- A computation that cannot fail. -/
theorem run_lift {x : PassTo ω α} :
    (liftM x : AttemptTo ω ε α).run m =
      match x m with
      | .ok a m' => .ok (.ok a) m'
      | .error reason m' => .error reason m' := by
  simp only [liftM, monadLift, MonadLift.monadLift, ExceptT.run_lift, Functor.map, EStateM.map]
  rcases x m with ⟨a, m'⟩ | ⟨reason, m'⟩ <;> rfl

theorem run_trace : (liftM Pass.trace : AttemptTo ω ε Trace).run m = .ok (.ok m.trace) m := rfl

/-- What follows is told what became of the computation. -/
theorem run_outcome_bind {x : AttemptTo ω δ β} {f : Except δ β → AttemptTo ω ε α} :
    (outcome x >>= f).run m = (Outcome.resume (x.run m) fun answer m' => (f answer).run m') := by
  rw [run_bind]
  simp only [outcome, ExceptT.run_lift, Functor.map, EStateM.map]
  rcases x.run m with ⟨answer, m'⟩ | ⟨reason, m'⟩ <;> rfl

/-- A computation whose value does not matter. -/
theorem discard_eq_bind {M : Type → Type} [Monad M] [LawfulMonad M] (x : M α) :
    discard x = (x >>= fun _ => pure PUnit.unit) := by
  rw [Functor.discard, LawfulFunctor.map_const]
  exact (bind_pure_comp _ x).symm

theorem run_discard (x : AttemptTo ω ε α) (m : Machine ω) :
    (discard x).run m = Outcome.andThen (x.run m) fun _ m' => .ok (.ok ()) m' := by
  rw [discard_eq_bind, run_bind]
  rfl

/-- The body runs with the frame on the trace. -/
theorem run_framed {f : Frame} {x : AttemptTo ω ε α} :
    (framed f x).run m = Outcome.leave (x.run (m.enter f)) := by
  rw [framed, ExceptT.run_mk]
  change EStateM.bind _ _ m = _
  rw [EStateM.bind]
  change EStateM.bind x.run _ (m.enter f) = _
  rw [EStateM.bind]
  rcases x.run (m.enter f) with ⟨answer, m'⟩ | ⟨reason, m'⟩ <;> rfl

/-- Run on `m`, the computation `x` ends as `E` requires. -/
def Meets (x : AttemptTo ω ε α) (m : Machine ω) (E : Ending ε α ω) : Prop := E.Holds (x.run m)

/-- A requirement can be replaced by a weaker one. -/
theorem Meets.imp {x : AttemptTo ω ε α} {E F : Ending ε α ω} (h : Meets x m E)
    (done : ∀ a m', E.done a m' → F.done a m')
    (failed : ∀ e m', E.failed e m' → F.failed e m')
    (aborted : ∀ reason m', E.aborted reason m' → F.aborted reason m') : Meets x m F := by
  revert h
  unfold Meets
  rcases x.run m with ⟨e | a, m'⟩ | ⟨reason, m'⟩ <;> intro h
  · exact failed e m' h
  · exact done a m' h
  · exact aborted reason m' h

/-- What is known of a value is what the requirement says of it. -/
theorem Meets.done {x : AttemptTo ω ε α} {E : Ending ε α ω} (h : Meets x m E) {a : α}
    {m' : Machine ω} (hx : x.run m = .ok (.ok a) m') : E.done a m' := by
  rw [Meets, hx] at h
  exact h

/-- What is known of a failure is what the requirement says of it. -/
theorem Meets.failed {x : AttemptTo ω ε α} {E : Ending ε α ω} (h : Meets x m E) {e : ε}
    {m' : Machine ω} (hx : x.run m = .ok (.error e) m') : E.failed e m' := by
  rw [Meets, hx] at h
  exact h

/-- What is known of an abort is what the requirement says of it. -/
theorem Meets.aborted {x : AttemptTo ω ε α} {E : Ending ε α ω} (h : Meets x m E) {reason : Abort}
    {m' : Machine ω} (hx : x.run m = .error reason m') : E.aborted reason m' := by
  rw [Meets, hx] at h
  exact h

/-! ### Ways to put computations together -/

variable {E : Ending ε α ω}

@[simp] theorem meets_pure (a : α) : Meets (pure a : AttemptTo ω ε α) m E ↔ E.done a m := Iff.rfl

@[simp] theorem meets_throw (e : ε) : Meets (throw e : AttemptTo ω ε α) m E ↔ E.failed e m :=
  Iff.rfl

/-- What follows a computation has to meet the requirement from where the computation ends. -/
@[simp] theorem meets_bind {x : AttemptTo ω ε β} {f : β → AttemptTo ω ε α} :
    Meets (x >>= f) m E ↔ Meets x m ⟨fun b m' => Meets (f b) m' E, E.failed, E.aborted⟩ := by
  rw [Meets, Meets, run_bind]
  rcases x.run m with ⟨e | b, m'⟩ | ⟨reason, m'⟩ <;> rfl

@[simp] theorem meets_map {x : AttemptTo ω ε β} {f : β → α} :
    Meets (f <$> x) m E ↔ Meets x m ⟨fun b => E.done (f b), E.failed, E.aborted⟩ := by
  rw [← bind_pure_comp]
  exact meets_bind

@[simp] theorem meets_discard {E : Ending ε PUnit ω} {x : AttemptTo ω ε β} :
    Meets (discard x) m E ↔ Meets x m ⟨fun _ => E.done ⟨⟩, E.failed, E.aborted⟩ :=
  meets_map

/-- A computation that cannot fail. -/
@[simp] theorem meets_lift {x : PassTo ω α} :
    Meets (liftM x : AttemptTo ω ε α) m E ↔
      match x m with
      | .ok a m' => E.done a m'
      | .error reason m' => E.aborted reason m' := by
  rw [Meets, run_lift]
  rcases x m with ⟨a, m'⟩ | ⟨reason, m'⟩ <;> rfl

/-- Where the outcome of a computation is asked for, a failure is an answer like any other. -/
@[simp] theorem meets_outcome {x : AttemptTo ω δ α} {E : Ending ε (Except δ α) ω} :
    Meets (outcome x) m E ↔
      Meets x m ⟨fun a => E.done (.ok a), fun e => E.done (.error e), E.aborted⟩ := by
  simp only [Meets, outcome, ExceptT.run_lift, Functor.map, EStateM.map]
  rcases x.run m with ⟨e | a, m'⟩ | ⟨reason, m'⟩ <;> rfl

/-- The body runs with the frame on the trace; the frame is gone when the body is over, unless
the body is aborted. -/
@[simp] theorem meets_framed {f : Frame} {x : AttemptTo ω ε α} :
    Meets (framed f x) m E ↔
      Meets x (m.enter f)
        ⟨fun a m' => E.done a m'.leave, fun e m' => E.failed e m'.leave, E.aborted⟩ := by
  rw [Meets, Meets, run_framed]
  rcases x.run (m.enter f) with ⟨e | a, m'⟩ | ⟨reason, m'⟩ <;> rfl

/-! ### Operations -/

@[simp] theorem meets_trace {E : Ending ε Trace ω} :
    Meets (liftM Pass.trace) m E ↔ E.done m.trace m :=
  meets_lift

@[simp] theorem meets_get {E : Ending ε (Machine ω) ω} :
    Meets (getThe (Machine ω)) m E ↔ E.done m m :=
  Iff.rfl

@[simp] theorem meets_log {E : Ending ε Unit ω} (line : LogLine) :
    Meets (liftM (log line)) m E ↔ E.done () { m with logs := m.logs ++ [line] } :=
  meets_lift

@[simp] theorem meets_failAt (reason : Trace → ε) :
    Meets (failAt reason : AttemptTo ω ε α) m E ↔ E.failed (reason m.trace) m := by
  simp only [failAt, meets_bind, meets_trace, meets_throw]

@[simp] theorem meets_abort (reason : Abort) :
    Meets (abort reason : AttemptTo ω ε α) m E ↔ E.aborted reason m := Iff.rfl

@[simp] theorem meets_onEncoder {E : Ending ε Unit ω} {x : EStateM ε ω Unit} :
    Meets (onEncoder x) m E ↔
      match x m.encoder with
      | .ok _ encoder => E.done () { m with encoder }
      | .error reason encoder => E.failed reason { m with encoder } := by
  simp only [Meets, onEncoder, ExceptT.run]
  rcases x m.encoder with ⟨⟨⟩, encoder⟩ | ⟨reason, encoder⟩ <;> rfl

@[simp] theorem meets_onStore {x : StoreM (Except ε α)} :
    Meets (ExceptT.mk (onStore x)) m E ↔
      match x m.store with
      | .ok (.ok a) store => E.done a { m with store }
      | .ok (.error e) store => E.failed e { m with store }
      | .error reason store => E.aborted reason { m with store } := by
  simp only [Meets, ExceptT.run_mk, onStore]
  rcases x m.store with ⟨e | a, store⟩ | ⟨reason, store⟩ <;> rfl

/-- An item is written, or the output fails. -/
theorem meets_emit [Output ω] {E : Ending WriteError Unit ω} (p : Primitive) :
    Meets (emit p) m E ↔
      match Encoder.write p m.encoder with
      | .ok _ encoder => E.done () { m with encoder }
      | .error source encoder => E.failed (.io m.trace source) { m with encoder } := by
  simp only [emit, meets_bind, meets_outcome, meets_onEncoder]
  rcases Encoder.write p m.encoder with ⟨⟨⟩, encoder⟩ | ⟨source, encoder⟩
  · exact meets_pure _
  · exact meets_failAt _

/-- Unwrapping changes the store. -/
theorem meets_unwrap {E : Ending WriteError (Option Value) ω} (env : Env) (frame : List Frame)
    (v : Option Value) :
    Meets (unwrap env frame v) m E ↔
      match (Value.unwrap env.decls v).run m.store with
      | .ok (.ok w) store => E.done w { m with store }
      | .ok (.error source) store => E.failed (.unwrap (frame ++ m.trace) source) { m with store }
      | .error reason store => E.aborted reason { m with store } := by
  simp only [unwrap, meets_bind, meets_outcome, meets_onStore]
  rcases (Value.unwrap env.decls v).run m.store with ⟨source | w, store⟩ | ⟨reason, store⟩
  · exact meets_failAt _
  · exact meets_pure _
  · exact Iff.rfl

/-- Asking for the writer of a type changes the beans. -/
theorem meets_writer? {E : Ending ε (Option Descriptor) ω} (env : Env) (type : TypeId) :
    Meets (liftM (writer? env type)) m E ↔
      match Beans.writer? env.decls type m.beans with
      | .ok d beans => E.done d { m with beans }
      | .error reason beans => E.aborted reason { m with beans } := by
  simp only [meets_lift, writer?, onBeans]
  rcases Beans.writer? env.decls type m.beans with ⟨d, beans⟩ | ⟨reason, beans⟩ <;> rfl

/-- Asking for the writer of a type changes nothing but the beans. -/
theorem beans_of_writer? {env : Env} {type : TypeId} {d : Option Descriptor} {m' : Machine ω}
    (h : (liftM (writer? env type) : AttemptTo ω ε _).run m = .ok (.ok d) m') :
    ∃ beans, m' = { m with beans } := by
  have spec : Meets (liftM (writer? env type) : AttemptTo ω ε _) m
      ⟨fun _ m' => ∃ beans, m' = { m with beans }, fun _ _ => True, fun _ _ => True⟩ := by
    refine (meets_writer? env type).2 ?_
    rcases Beans.writer? env.decls type m.beans with ⟨d, beans⟩ | ⟨reason, beans⟩
    · exact ⟨beans, rfl⟩
    · trivial
  exact spec.done h

end Pass

end BeanStream
