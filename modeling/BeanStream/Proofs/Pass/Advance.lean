import BeanStream.Proofs.Codec.Plain
import BeanStream.Proofs.Pass.Depth
import BeanStream.Proofs.Result
import Mathlib.Logic.Relation

/-!
# What a pass leaves behind

Whatever becomes of a pass, it only **goes on** from where it was (`Machine.Advances`): bytes are
added behind those that were written, lines behind those that were logged, and the memory changes
by nothing but the questions that are asked of it (`Memory.Asks`). Frames that were put on the
trace have been taken off again, unless the pass was aborted.

Main fact: **every call proceeds** like this (`Call.proceeds_run`), whatever the codecs do.
-/

namespace BeanStream

open Wire Encoder Pass Relation

namespace Memory

variable (decls : Declarations)

/-- What a memory becomes when it is asked something. -/
inductive Asks : Memory → Memory → Prop
  /-- A value is unwrapped. -/
  | unwrap (v : Option Value) (memory) :
      Asks memory { memory with store := aftermath ((Value.unwrap decls v).run memory.store) }
  /-- A lazy value is forced, on behalf of some thread. -/
  | force (thread cell : Nat) (memory) :
      Asks memory { memory with store := aftermath (Store.force decls thread cell memory.store) }
  /-- The writer of a type is looked up. -/
  | writer (type : TypeId) (memory) :
      Asks memory { memory with beans := aftermath (Beans.writer? decls type memory.beans) }
  /-- The descriptor of a type is looked up, past the writers. -/
  | descriptor (type : TypeId) (memory) :
      Asks memory { memory with
        beans := aftermath (Beans.inRegistry (BeanRegistry.get? decls type) memory.beans) }

end Memory

namespace LogLine

/-- Whether a line tells that a property was left out. -/
def isOmission : LogLine → Bool
  | .omitted _ _ => true
  | .written _ _ => false

end LogLine

namespace Machine

variable {ω : Type} [Output ω]

/-- The machine `m'` may be left after more was done with `m`. -/
structure Advances (env : Env) (m m' : Machine ω) : Prop where
  written : m.written <+: m'.written
  /-- Under the strict policy, nothing is left out. -/
  logs : ∃ lines, m'.logs = m.logs ++ lines ∧
    (env.settings.missing = .fail → ∀ line ∈ lines, line.isOmission = false)
  memory : ReflTransGen (Memory.Asks env.decls) m.memory m'.memory

namespace Advances

variable {env : Env} {m m' m'' : Machine ω}

theorem refl (m : Machine ω) : m.Advances env m where
  written := List.prefix_rfl
  logs := ⟨[], by simp⟩
  memory := .refl

theorem trans (h : m.Advances env m') (h' : m'.Advances env m'') : m.Advances env m'' where
  written := h.written.trans h'.written
  logs := by
    obtain ⟨lines, added, kept⟩ := h.logs
    obtain ⟨lines', added', kept'⟩ := h'.logs
    refine ⟨lines ++ lines', by rw [added', added, List.append_assoc], fun strict line mem => ?_⟩
    rcases List.mem_append.1 mem with mem | mem
    · exact kept strict line mem
    · exact kept' strict line mem
  memory := h.memory.trans h'.memory

/-- Bytes are added. -/
theorem encoder {e : ω} (h : m.written <+: Output.written e) :
    m.Advances env { m with encoder := e } :=
  { refl m with written := h }

/-- The memory is asked something. -/
theorem asked {store : Store} {beans : Beans}
    (h : Memory.Asks env.decls m.memory { store, beans }) :
    m.Advances env { m with store, beans } :=
  { refl m with memory := .single h }

theorem enter (f : Frame) (h : (m.enter f).Advances env m') : m.Advances env m' :=
  ⟨h.written, h.logs, h.memory⟩

theorem leave (h : m.Advances env m') : m.Advances env m'.leave :=
  ⟨h.written, h.logs, h.memory⟩

theorem prefix_logs (h : m.Advances env m') : m.logs <+: m'.logs := by
  obtain ⟨lines, added, -⟩ := h.logs
  exact ⟨lines, added.symm⟩

end Advances

end Machine

namespace Pass

variable {ω ε δ α β : Type} [Output ω] {env : Env}

/-- Adds the line that something was written, and answers. -/
def logWritten (typePath : Option String) (a : α) : AttemptTo ω ε α := do
  log (ω := ω) (.written (← Pass.trace (ω := ω)) typePath)
  return a

/-- Writes a property whose value is not deferred, with the frame of the property on the trace. -/
def propertyBody (env : Env) (below : Nested ω) (name : String) (w : Option Value) :
    AttemptTo ω WriteError Bool := do
  match ← actionFor (ω := ω) env w with
  | none => omitProperty env w
  | some action =>
    writeName name
    below.writeWith action
    logWritten (w.map (Value.typePath env.decls)) true

theorem writeResolvedProperty_eq_framed (env : Env) (below : Nested ω) (kind : PropertyKind)
    (name : String) (w : Option Value) :
    writeResolvedProperty env below kind name w =
      framed (.property kind name) (propertyBody env below name w) := rfl

/-- Where a computation ends that was begun on `m`: further on, and with the trace of `m` if it was
not aborted. -/
def Ahead (env : Env) (ε α : Type) (m : Machine ω) : Ending ε α ω where
  done _ m' := m.Advances env m' ∧ m'.trace = m.trace
  failed _ m' := m.Advances env m' ∧ m'.trace = m.trace
  aborted _ m' := m.Advances env m'

/-- A computation that only goes on from where it is begun, and takes off the frames it puts on. -/
def Proceeds (env : Env) (x : AttemptTo ω ε α) : Prop := ∀ m, Meets x m (Ahead env ε α m)

namespace Proceeds

/-- Whatever becomes of a computation, it goes on. -/
theorem advances {x : AttemptTo ω ε α} (h : Proceeds env x) (m : Machine ω) :
    m.Advances env (aftermath (x.run m)) := by
  have spec := h m
  rcases run : x.run m with ⟨e | a, m'⟩ | ⟨reason, m'⟩
  · exact (spec.failed run).1
  · exact (spec.done run).1
  · exact spec.aborted run

/-- A computation that is not aborted takes off what it puts on. -/
theorem trace {x : AttemptTo ω ε α} (h : Proceeds env x) {m m' : Machine ω} {answer : Except ε α}
    (run : x.run m = .ok answer m') : m'.trace = m.trace := by
  rcases answer with e | a
  · exact ((h m).failed run).2
  · exact ((h m).done run).2

theorem pure (a : α) : Proceeds env (Pure.pure a : AttemptTo ω ε α) := fun m => ⟨.refl m, rfl⟩

theorem throw (e : ε) : Proceeds env (MonadExcept.throw e : AttemptTo ω ε α) := fun m =>
  ⟨.refl m, rfl⟩

theorem bind {x : AttemptTo ω ε β} {f : β → AttemptTo ω ε α} (first : Proceeds env x)
    (next : ∀ b, Proceeds env (f b)) : Proceeds env (x >>= f) := by
  intro m
  refine meets_bind.2 ((first m).imp (fun b m₁ ahead => ?_) (fun e m₁ => id) fun reason m₁ => id)
  obtain ⟨advances, trace⟩ := ahead
  exact (next b m₁).imp
    (fun a m₂ ahead => ⟨advances.trans ahead.1, ahead.2.trans trace⟩)
    (fun e m₂ ahead => ⟨advances.trans ahead.1, ahead.2.trans trace⟩)
    fun reason m₂ ahead => advances.trans ahead

theorem discard {x : AttemptTo ω ε α} (h : Proceeds env x) :
    Proceeds env (Functor.discard x) := fun m => meets_discard.2 (h m)

theorem outcome {x : AttemptTo ω δ α} (h : Proceeds env x) :
    Proceeds env (Pass.outcome x : AttemptTo ω ε (Except δ α)) := fun m => meets_outcome.2 (h m)

/-- The frame is taken off behind the body. -/
theorem framed {x : AttemptTo ω ε α} (h : Proceeds env x) (f : Frame) :
    Proceeds env (Pass.framed f x) := by
  intro m
  refine meets_framed.2 ((h (m.enter f)).imp ?_ ?_ fun reason m' ahead => ahead.enter)
  · intro a m' ahead
    exact ⟨ahead.1.enter.leave, Machine.trace_leave_of_enter ahead.2⟩
  · intro e m' ahead
    exact ⟨ahead.1.enter.leave, Machine.trace_leave_of_enter ahead.2⟩

/-! ### Operations -/

theorem get : Proceeds env (getThe (Machine ω) : AttemptTo ω ε (Machine ω)) := fun m =>
  ⟨.refl m, rfl⟩

theorem seeTrace : Proceeds env (liftM Pass.trace : AttemptTo ω ε Trace) := fun m =>
  meets_trace.2 ⟨.refl m, rfl⟩

theorem failAt (reason : Trace → ε) :
    Proceeds env (Pass.failAt reason : AttemptTo ω ε α) := fun m =>
  (meets_failAt reason).2 ⟨.refl m, rfl⟩

theorem abort (reason : Abort) : Proceeds env (Pass.abort reason : AttemptTo ω ε α) := fun m =>
  (meets_abort reason).2 (.refl m)

/-- Under the strict policy, only a line about what was written is logged. -/
theorem log {line : LogLine} (h : env.settings.missing = .fail → line.isOmission = false) :
    Proceeds env (liftM (Pass.log line) : AttemptTo ω ε Unit) := by
  intro m
  refine (meets_log line).2 ⟨{ Machine.Advances.refl m with logs := ?_ }, rfl⟩
  refine ⟨[line], rfl, fun strict other mem => ?_⟩
  rw [List.mem_singleton.1 mem]
  exact h strict

/-- A line about the place that the pass has come to. -/
theorem logWritten (typePath : Option String) (a : α) :
    Proceeds env (Pass.logWritten typePath a : AttemptTo ω ε α) :=
  .bind seeTrace fun _ => .bind (.log fun _ => rfl) fun _ => .pure a

/-- Bytes are added behind those that were written. -/
theorem onEncoder {x : EStateM ε ω Unit} {ofIo : IoError → ε} {pieces : List (List UInt8)}
    {ending : Except ε Unit} (h : Writes ofIo x pieces ending) :
    Proceeds env (Pass.onEncoder x) := by
  intro m
  refine meets_onEncoder.2 ?_
  have added := prefix_writePieces pieces m.encoder
  rw [h m.encoder]
  generalize writePieces pieces m.encoder = r at added
  rcases r with ⟨⟨⟩, e⟩ | ⟨source, e⟩
  · rcases ending with reason | ⟨⟩
    · exact ⟨.encoder added, rfl⟩
    · exact ⟨.encoder added, rfl⟩
  · exact ⟨.encoder added, rfl⟩

theorem emit (p : Primitive) : Proceeds (ω := ω) env (Pass.emit p) := by
  have written : Proceeds (ω := ω) env (Pass.onEncoder (Encoder.write p)) :=
    onEncoder (writes_write p)
  refine .bind written.outcome fun answer => ?_
  rcases answer with source | ⟨⟩
  · exact .failAt _
  · exact .pure ()

theorem unwrap (frame : List Frame) (v : Option Value) :
    Proceeds (ω := ω) env (Pass.unwrap env frame v) := by
  intro m
  have asked := @Memory.Asks.unwrap env.decls v m.memory
  refine (meets_unwrap env frame v).2 ?_
  change Memory.Asks _ _ ⟨aftermath ((Value.unwrap env.decls v).run m.store), m.beans⟩ at asked
  generalize (Value.unwrap env.decls v).run m.store = r at asked
  rcases r with ⟨source | w, store⟩ | ⟨reason, store⟩
  · exact ⟨.asked asked, rfl⟩
  · exact ⟨.asked asked, rfl⟩
  · exact .asked asked

theorem writer? (type : TypeId) :
    Proceeds env (liftM (Pass.writer? env type) : AttemptTo ω ε (Option Descriptor)) := by
  intro m
  have asked := @Memory.Asks.writer env.decls type m.memory
  refine (meets_writer? env type).2 ?_
  change Memory.Asks _ _ ⟨m.store, aftermath (Beans.writer? env.decls type m.beans)⟩ at asked
  generalize Beans.writer? env.decls type m.beans = r at asked
  rcases r with ⟨d, beans⟩ | ⟨reason, beans⟩
  · exact ⟨.asked asked, rfl⟩
  · exact .asked asked

/-- An action is found by asking for a writer at most. -/
theorem actionFor (v : Option Value) :
    Proceeds env (liftM (Pass.actionFor env v) : AttemptTo ω ε (Option Action)) := by
  intro m
  rcases v with _ | v
  · exact meets_lift.2 ⟨.refl m, rfl⟩
  refine meets_lift.2 ?_
  rcases found : env.codecs.get? v.typeId with _ | e
  · have spec : Meets (liftM (Pass.writer? env v.typeId) : AttemptTo ω ε _) m _ :=
      writer? v.typeId m
    have asked := meets_lift.1 spec
    rw [actionFor_of_no_codec found]
    generalize Pass.writer? env v.typeId m = r at asked
    rcases r with ⟨_ | d, m'⟩ | ⟨reason, m'⟩ <;> exact asked
  · rw [actionFor_of_codec found]
    exact ⟨.refl m, rfl⟩

end Proceeds

end Pass

/-- The writes of a level proceed. -/
structure Nested.Proceeds {ω : Type} [Output ω] (env : Env) (below : Nested ω) : Prop where
  writeWith : ∀ a, Pass.Proceeds env (below.writeWith a)
  encode : ∀ e v, Pass.Proceeds env (below.encode e v)

namespace Pass

variable {ω : Type} [Output ω] {env : Env} {below : Nested ω} (h : below.Proceeds env)

namespace Proceeds

include h

theorem writeValue (v : Option Value) : Proceeds env (Pass.writeValue env below v) := by
  refine .bind (unwrap [] v) fun w => .bind (actionFor w) fun a => ?_
  rcases a with _ | a
  · exact .failAt _
  · exact h.writeWith a

theorem writeElements (index : Nat) (vs : List Value) :
    Proceeds env (Pass.writeElements env below index vs) := by
  induction vs generalizing index with
  | nil => exact .pure ()
  | cons v vs ih => exact .bind ((writeValue h (some v)).framed _) fun _ => ih (index + 1)

theorem propertyBody (name : String) (w : Option Value) :
    Proceeds env (Pass.propertyBody env below name w) := by
  refine .bind (actionFor w) fun a => ?_
  rcases a with _ | a
  · dsimp only [omitProperty]
    split
    · rename_i lenient
      refine .bind seeTrace fun t => ?_
      refine .bind (.log fun strict => ?_) fun _ => .pure false
      rw [lenient] at strict
      cases strict
    · exact .failAt _
  · exact .bind (emit _) fun _ => .bind (h.writeWith a) fun _ => .logWritten _ true

theorem writeResolvedProperty (kind : PropertyKind) (name : String) (w : Option Value) :
    Proceeds env (Pass.writeResolvedProperty env below kind name w) := by
  rw [writeResolvedProperty_eq_framed]
  exact (propertyBody h name w).framed _

theorem writeNextProperty (name : String) (v : Option Value) (kind : PropertyKind) :
    Proceeds env (Pass.writeNextProperty env below name v kind) := by
  unfold Pass.writeNextProperty
  split
  · exact .failAt _
  · exact .bind (unwrap _ v) fun w => writeResolvedProperty h kind name w

theorem writeField (d : Descriptor) (v : Value) (conventions : Option Nat) (f : Field) :
    Proceeds env (Pass.writeField env below d v conventions f) := by
  unfold Pass.writeField
  rcases d.read f v with _ | raw
  · exact .throw _
  rcases conventions with _ | mapping
  · exact (writeNextProperty h f.name (some raw) .field).discard
  · refine .bind (unwrap _ (some raw)) fun own => ?_
    rcases own with _ | content
    · exact .bind get fun m => (writeNextProperty h f.name _ .field).discard
    · exact (writeNextProperty h f.name (some content) .field).discard

theorem writeFields (d : Descriptor) (v : Value) (conventions : Option Nat) (fs : List Field) :
    Proceeds env (Pass.writeFields env below d v conventions fs) := by
  induction fs with
  | nil => exact .pure ()
  | cons f fs ih => exact .bind (writeField h d v conventions f) fun _ => ih

theorem writeFieldsOf (d : Descriptor) (v : Value) :
    Proceeds env (Pass.writeFieldsOf env below d v) := by
  refine .bind seeTrace fun t => ?_
  split
  · exact .failAt _
  · exact .framed (.bind (writeFields h d v _ d.fields) fun _ => emit _) _

theorem writeBean (v : Value) : Proceeds env (Pass.writeBean env below v) := by
  refine .bind (writer? v.typeId) fun d => ?_
  rcases d with _ | d
  · exact .throw _
  · exact writeFieldsOf h d v

/-- A codec proceeds, whatever it does. -/
theorem run (s : Script) : Proceeds env (Pass.run env below s) := by
  induction s with
  | done => exact .pure ()
  | fail reason => exact .throw reason
  | write p next ih => exact .bind (outcome (onEncoder (writes_write p))) ih
  | tree t next ih =>
    obtain ⟨pieces, ending, writes⟩ := t.exists_writes
    exact .bind (outcome (onEncoder (writes ω))) ih
  | value v next ih => exact .bind (writeValue h v).outcome ih
  | bean v next ih => exact .bind (writeBean h v).outcome ih
  | property name v kind next ih => exact .bind (writeNextProperty h name v kind).outcome ih
  | name name next ih => exact .bind (outcome (emit _)) ih
  | framed f body next body_ih ih => exact .bind (body_ih.framed f).outcome ih
  | reencode v next ih =>
    rw [Pass.run]
    split
    · exact .bind (h.encode _ v).outcome ih
    · exact ih _
  | context next ih => exact .bind seeTrace fun t => ih t env.settings
  | knows type next ih => exact .bind (writer? type) fun d => ih d.isSome

theorem encode (e : Entry) (v : Value) : Proceeds env (Pass.encode env below e v) := by
  unfold Pass.encode
  split
  · exact run h _
  · exact .throw _

theorem writePayload (a : Action) : Proceeds env (Pass.writePayload env below a) := by
  cases a with
  | null => exact .pure ()
  | codec e v =>
    refine .bind (encode h e v).outcome fun answer => ?_
    rcases answer with reason | ⟨⟩
    · exact .failAt _
    · exact .pure ()
  | bean d v => exact .bind (emit _) fun _ => writeFieldsOf h d v
  | sequence items => exact .bind (emit _) fun _ => writeElements h 0 items

theorem writeWith (a : Action) : Proceeds env (Pass.writeWith env below a) :=
  .bind (emit _) fun _ => writePayload h a

end Proceeds

/-- The writes of every level proceed. -/
theorem proceeds_ofDepth (env : Env) (depth : Nat) :
    (Nested.ofDepth env depth : Nested ω).Proceeds env := by
  induction depth with
  | zero => exact ⟨fun _ => .abort _, fun _ _ => .abort _⟩
  | succ depth ih => exact ⟨.writeWith ih, .encode ih⟩

end Pass

/-- A call only goes on from where the machine was. -/
theorem Call.proceeds_run {ω : Type} [Output ω] (env : Env) (c : Call) (depth : Nat) :
    Proceeds (ω := ω) env (c.run env (.ofDepth env depth)) := by
  have below := proceeds_ofDepth (ω := ω) env depth
  cases c with
  | value v => exact .writeValue below v
  | property name v kind => exact .writeNextProperty below name v kind
  | bean v => exact .writeBean below v

end BeanStream
