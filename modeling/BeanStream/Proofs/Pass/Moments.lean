import BeanStream.Proofs.Pass.Advance
import BeanStream.Proofs.Pass.Resolution

/-!
# The trace at every moment of a pass

A computation of a pass is **orderly** (`Orderly`) if it is put together from elementary
operations, none of which touches the trace, and from bodies that run under a frame: one that
satisfies a condition, or one of a bean, within the limit on nesting. The **moments** of a
computation (`Moment`) are the machines that its orderly parts begin on and the ones they leave. A
computation can be put together in more than one way, and the moments of all of them count.

Main facts: at every moment, the trace is the one at the beginning with **frames on top that may be
there** (`Moment.grown`), and a computation that returns leaves the trace as it found it
(`Orderly.trace_eq`). Everything that can be done in a pass is orderly (`Orderly.writeValue` to
`Orderly.writeWith`), whatever the codecs do, and so is all that a client of a pass puts together
from it (`Client.trace_restored`).
-/

namespace BeanStream

open Wire Pass

/-- A trace that has grown from `outer`: frames that satisfy `free` were put on it at any time, and
frames of beans while there were fewer than `limit` of them. -/
inductive Trace.Grown (free : Frame → Prop) (limit : Nat) (outer : Trace) : Trace → Prop
  | refl : Grown free limit outer outer
  | free {f t} (grown : Grown free limit outer t) (h : free f) : Grown free limit outer (f :: t)
  | bean {t} (path : String) (grown : Grown free limit outer t) (within : t.beanDepth < limit) :
      Grown free limit outer (.bean path :: t)

namespace Trace.Grown

variable {free : Frame → Prop} {limit : Nat} {outer t t' : Trace}

theorem of_eq (h : t = outer) : Grown free limit outer t := h ▸ .refl

theorem trans (h : Grown free limit outer t) (h' : Grown free limit t t') :
    Grown free limit outer t' := by
  induction h' with
  | refl => exact h
  | free _ allowed ih => exact ih.free allowed
  | bean path _ within ih => exact ih.bean path within

/-- What was there is still there, below what was put on it. -/
theorem suffix (h : Grown free limit outer t) : outer <:+ t := by
  induction h with
  | refl => exact List.suffix_rfl
  | free _ _ ih => exact ih.trans (List.suffix_cons _ _)
  | bean _ _ _ ih => exact ih.trans (List.suffix_cons _ _)

/-- Where frames of beans are subject to the limit, there are not more of them, unless there were
more before. -/
theorem beanDepth_le (others : ∀ f, free f → f.isBean = false) (h : Grown free limit outer t) :
    t.beanDepth ≤ max outer.beanDepth limit := by
  induction h with
  | refl => exact Nat.le_max_left _ _
  | @free f t _ allowed ih =>
    have same : beanDepth (f :: t) = t.beanDepth :=
      List.countP_cons_of_neg (by simp [others f allowed])
    rw [same]
    exact ih
  | bean path _ within _ =>
    rw [beanDepth_bean]
    exact Nat.le_trans within (Nat.le_max_right _ _)

end Trace.Grown

/-- A frame that may be put on at any time. -/
theorem Machine.grown_enter {ω : Type} {free : Frame → Prop} {limit : Nat} {f : Frame}
    (allowed : free f) (m : Machine ω) : m.trace.Grown free limit (m.enter f).trace :=
  .free .refl allowed

/-- The frame of a bean, within the limit. -/
theorem Machine.grown_enter_bean {ω : Type} {free : Frame → Prop} {limit : Nat} {m : Machine ω}
    (within : m.trace.beanDepth < limit) (path : String) :
    m.trace.Grown free limit (m.enter (.bean path)).trace := .bean path .refl within

/-- The frames that a script puts on the trace itself satisfy `free`. -/
def Script.Frames (free : Frame → Prop) : Script → Prop
  | .done | .fail _ => True
  | .write _ next => ∀ answer, Frames free (next answer)
  | .tree _ next => ∀ answer, Frames free (next answer)
  | .value _ next => ∀ answer, Frames free (next answer)
  | .bean _ next => ∀ answer, Frames free (next answer)
  | .property _ _ _ next => ∀ answer, Frames free (next answer)
  | .name _ next => ∀ answer, Frames free (next answer)
  | .framed f body next => free f ∧ Frames free body ∧ ∀ answer, Frames free (next answer)
  | .reencode _ next => ∀ answer, Frames free (next answer)
  | .context next => ∀ trace settings, Frames free (next trace settings)
  | .knows _ next => ∀ known, Frames free (next known)

/-- If all frames satisfy `free`, those of every script do. -/
theorem Script.frames_of_forall {free : Frame → Prop} (all : ∀ f, free f) (s : Script) :
    s.Frames free := by
  induction s with
  | done | fail => trivial
  | write _ _ ih | tree _ _ ih | value _ _ ih | bean _ _ ih | property _ _ _ _ ih | name _ _ ih
  | reencode _ _ ih | knows _ _ ih => exact ih
  | framed f _ _ body_ih ih => exact ⟨all f, body_ih, ih⟩
  | context _ ih => exact ih

/-- A script that only writes puts no frames on. -/
theorem Script.Plain.frames {s : Script} (h : s.Plain) (free : Frame → Prop) : s.Frames free := by
  induction h with
  | done | fail => trivial
  | @write p next _ relays ih =>
    intro answer
    rcases answer with source | ⟨⟩
    · rw [relays]
      trivial
    · exact ih
  | @tree t next _ _ _ ih fails =>
    intro answer
    rcases answer with reason | ⟨⟩
    · exact fails reason
    · exact ih

/-- The frames that codecs put on the trace themselves satisfy `free`. -/
def CodecRegistry.Frames (free : Frame → Prop) (r : CodecRegistry) : Prop :=
  ∀ {type e}, r.get? type = some e → ∀ v, (e.codec v).Frames free

theorem CodecRegistry.Plain.frames {r : CodecRegistry} (h : r.Plain) (free : Frame → Prop) :
    r.Frames free := fun found v => (h found v).frames free

/-- The frames that the codec of an action puts on the trace itself satisfy `free`. -/
def Action.Frames (free : Frame → Prop) : Action → Prop
  | .codec e v => (e.codec v).Frames free
  | _ => True

/-- What holds of the codecs holds of the actions that are found with them. -/
theorem Action.Known.frames {env : Env} {free : Frame → Prop} (codecs : env.codecs.Frames free)
    {a : Action} (known : a.Known env) : a.Frames free := by
  cases a with
  | codec e v => exact codecs known v
  | _ => trivial

namespace Pass

variable {ω : Type}

/-- The operations that are not put together from others. -/
inductive Elementary : {ε α : Type} → AttemptTo ω ε α → Prop
  | pure {ε α : Type} (a : α) : Elementary (pure a : AttemptTo ω ε α)
  | throw {ε α : Type} (e : ε) : Elementary (throw e : AttemptTo ω ε α)
  | abort {ε α : Type} (reason : Abort) : Elementary (abort reason : AttemptTo ω ε α)
  | get {ε : Type} : Elementary (getThe (Machine ω) : AttemptTo ω ε (Machine ω))
  | trace {ε : Type} : Elementary (liftM Pass.trace : AttemptTo ω ε Trace)
  | log {ε : Type} (line : LogLine) : Elementary (liftM (log line) : AttemptTo ω ε Unit)
  | onEncoder {ε : Type} (x : EStateM ε ω Unit) : Elementary (onEncoder x)
  | onStore {ε α : Type} (x : StoreM (Except ε α)) : Elementary (ExceptT.mk (onStore x))
  | onBeans {ε α : Type} (x : EStateM Abort Beans α) :
      Elementary (liftM (onBeans x) : AttemptTo ω ε α)

variable {ε δ α β : Type}

/-- None of them touches the trace. -/
theorem Elementary.trace_eq {x : AttemptTo ω ε α} (h : Elementary x) (m : Machine ω) :
    (aftermath (x.run m)).trace = m.trace := by
  cases h with
  | pure | throw | abort | get | trace | log => rfl
  | onEncoder x =>
    change (aftermath (Pass.onEncoder x m)).trace = m.trace
    rw [Pass.onEncoder]
    rcases x m.encoder with ⟨⟨⟩, encoder⟩ | ⟨reason, encoder⟩ <;> rfl
  | onStore x =>
    change (aftermath (Pass.onStore x m)).trace = m.trace
    rw [Pass.onStore]
    rcases x m.store with ⟨answer, store⟩ | ⟨reason, store⟩ <;> rfl
  | onBeans x =>
    rw [run_lift, Pass.onBeans]
    rcases x m.beans with ⟨a, beans⟩ | ⟨reason, beans⟩ <;> rfl

/-- Runs `body` under the frame of a bean, if the limit on nesting allows for one more. -/
def underBean (limit : Nat) (path : String) (body : AttemptTo ω WriteError α) :
    AttemptTo ω WriteError α := do
  if (← trace (ω := ω)).beanDepth ≥ limit then failAt (.tooDeep · limit)
  else framed (.bean path) body

theorem run_underBean (limit : Nat) (path : String) (body : AttemptTo ω WriteError α)
    (m : Machine ω) :
    (underBean limit path body).run m =
      if limit ≤ m.trace.beanDepth then .ok (.error (.tooDeep m.trace limit)) m
      else Outcome.leave (body.run (m.enter (.bean path))) := by
  simp only [underBean, run_bind, run_trace, Outcome.andThen, ge_iff_le]
  split
  · rfl
  · exact run_framed

/-- The properties of an instance of a bean are written under its frame. -/
theorem writeFieldsOf_eq_underBean [Output ω] (env : Env) (below : Nested ω) (d : Descriptor)
    (v : Value) :
    writeFieldsOf env below d v = underBean env.settings.maxDepth d.path
      (writingProperties (writeFields env below d v (d.conventionsOf v) d.fields)) := rfl

/-- Where a frame goes with a failure to unwrap, the place is told under that frame. -/
theorem unwrap_eq_framed (env : Env) (f : Frame) (v : Option Value) :
    unwrap (ω := ω) env [f] v =
      outcome (ExceptT.mk (onStore (Value.unwrap env.decls v).run)) >>= fun answer =>
        match answer with
        | .ok w => pure w
        | .error source => framed f (liftM Pass.trace) >>= fun t => throw (.unwrap t source) :=
  rfl

section Orderly

variable (free : Frame → Prop) (limit : Nat)

/-- A computation that is put together from elementary operations and from bodies under frames,
those that satisfy `free` and those of beans within the limit. -/
inductive Orderly : {ε α : Type} → AttemptTo ω ε α → Prop
  | elementary {ε α : Type} {x : AttemptTo ω ε α} (h : Elementary x) : Orderly x
  | bind {ε α β : Type} {x : AttemptTo ω ε β} {f : β → AttemptTo ω ε α} (first : Orderly x)
      (next : ∀ b m m', x.run m = .ok (.ok b) m' → Orderly (f b)) : Orderly (x >>= f)
  | outcome {ε δ α : Type} {x : AttemptTo ω δ α} (h : Orderly x) :
      Orderly (outcome x : AttemptTo ω ε (Except δ α))
  | framed {ε α : Type} {f : Frame} {x : AttemptTo ω ε α} (allowed : free f) (h : Orderly x) :
      Orderly (framed f x)
  | underBean {α : Type} (path : String) {x : AttemptTo ω WriteError α} (h : Orderly x) :
      Orderly (underBean limit path x)

/-- The machine `m'` is there at some moment of a computation that is begun on `m`: when an orderly
computation begins or is over, or at some moment of one of its parts. -/
inductive Moment : {ε α : Type} → AttemptTo ω ε α → Machine ω → Machine ω → Prop
  | first {ε α : Type} {x : AttemptTo ω ε α} (h : Orderly free limit x) (m : Machine ω) :
      Moment x m m
  | last {ε α : Type} {x : AttemptTo ω ε α} (h : Orderly free limit x) (m : Machine ω) :
      Moment x m (aftermath (x.run m))
  | bind_left {ε α β : Type} {x : AttemptTo ω ε β} {f : β → AttemptTo ω ε α} {m m'}
      (h : Moment x m m') : Moment (x >>= f) m m'
  | bind_right {ε α β : Type} {x : AttemptTo ω ε β} {f : β → AttemptTo ω ε α} {b m m₁ m'}
      (first : Orderly free limit x) (run : x.run m = .ok (.ok b) m₁) (h : Moment (f b) m₁ m') :
      Moment (x >>= f) m m'
  | outcome {ε δ α : Type} {x : AttemptTo ω δ α} {m m'} (h : Moment x m m') :
      Moment (outcome x : AttemptTo ω ε (Except δ α)) m m'
  | framed {ε α : Type} {f : Frame} {x : AttemptTo ω ε α} {m m'} (allowed : free f)
      (h : Moment x (m.enter f) m') : Moment (framed f x) m m'
  | underBean {α : Type} {path : String} {x : AttemptTo ω WriteError α} {m m'}
      (within : m.trace.beanDepth < limit) (h : Moment x (m.enter (.bean path)) m') :
      Moment (underBean limit path x) m m'

end Orderly

variable {free : Frame → Prop} {limit : Nat}

/-- Where an orderly computation ends that was begun on `m`: with the trace of `m`, or, if it was
aborted, with one that has grown from it. -/
def Restored (free : Frame → Prop) (limit : Nat) (ε α : Type) (m : Machine ω) : Ending ε α ω where
  done _ m' := m'.trace = m.trace
  failed _ m' := m'.trace = m.trace
  aborted _ m' := m.trace.Grown free limit m'.trace

/-- Whatever becomes of the computation, the trace has grown. -/
theorem grown_of_restored {x : AttemptTo ω ε α} {m : Machine ω}
    (h : Meets x m (Restored free limit ε α m)) :
    m.trace.Grown free limit (aftermath (x.run m)).trace := by
  unfold Meets at h
  rcases run : x.run m with ⟨e | a, m'⟩ | ⟨reason, m'⟩ <;> rw [run] at h
  · exact .of_eq h
  · exact .of_eq h
  · exact h

/-- The frame is taken off behind the body. -/
theorem restored_framed {f : Frame} {x : AttemptTo ω ε α} {m : Machine ω}
    (entered : m.trace.Grown free limit (m.enter f).trace)
    (h : Meets x (m.enter f) (Restored free limit ε α (m.enter f))) :
    Meets (framed f x) m (Restored free limit ε α m) :=
  meets_framed.2 (h.imp (fun _ _ => Machine.trace_leave_of_enter)
    (fun _ _ => Machine.trace_leave_of_enter) fun _ _ => entered.trans)

namespace Orderly

theorem restored {x : AttemptTo ω ε α} (h : Orderly free limit x) (m : Machine ω) :
    Meets x m (Restored free limit ε α m) := by
  induction h generalizing m with
  | @elementary _ _ x h =>
    have same := h.trace_eq m
    unfold Meets
    rcases run : x.run m with ⟨e | a, m'⟩ | ⟨reason, m'⟩ <;> rw [run] at same
    · exact same
    · exact same
    · exact .of_eq same
  | @bind _ _ _ x f _ _ ih next_ih =>
    refine meets_bind.2 ?_
    have first := ih m
    unfold Meets at first ⊢
    rcases run : x.run m with ⟨e | b, m₁⟩ | ⟨reason, m₁⟩ <;> rw [run] at first
    · exact first
    · have kept : m₁.trace = m.trace := first
      have rest : Meets (f b) m₁ (Restored free limit _ _ m₁) := next_ih b m m₁ run m₁
      exact rest.imp (fun _ _ same => same.trans kept) (fun _ _ same => same.trans kept)
        fun _ _ => (Trace.Grown.of_eq kept).trans
    · exact first
  | outcome _ ih => exact meets_outcome.2 (ih m)
  | @framed _ _ f _ allowed _ ih => exact restored_framed (m.grown_enter allowed) (ih (m.enter f))
  | @underBean _ path x _ ih =>
    rw [Meets, run_underBean]
    split
    · rfl
    · rename_i within
      rw [← run_framed]
      exact restored_framed (Machine.grown_enter_bean (Nat.lt_of_not_le within) path) (ih _)

/-- A computation that returns, with a value or with a failure, leaves the trace as it found it. -/
theorem trace_eq {x : AttemptTo ω ε α} (h : Orderly free limit x) {m m' : Machine ω}
    {answer : Except ε α} (run : x.run m = .ok answer m') : m'.trace = m.trace := by
  have spec := h.restored m
  rcases answer with e | a
  · exact spec.failed run
  · exact spec.done run

end Orderly

/-- At every moment, the trace has grown from what it was at the beginning. -/
theorem Moment.grown {x : AttemptTo ω ε α} {m m' : Machine ω} (h : Moment free limit x m m') :
    m.trace.Grown free limit m'.trace := by
  induction h with
  | first => exact .refl
  | last h m => exact grown_of_restored (h.restored m)
  | bind_left _ ih => exact ih
  | bind_right first run _ ih => exact first.trace_eq run ▸ ih
  | outcome _ ih => exact ih
  | @framed _ _ _ _ m _ allowed _ ih => exact (m.grown_enter allowed).trans ih
  | underBean within _ ih => exact (Machine.grown_enter_bean within _).trans ih

/-! ### What is done in a pass is orderly -/

namespace Orderly

theorem pure (a : α) : Orderly free limit (Pure.pure a : AttemptTo ω ε α) := .elementary (.pure a)

theorem throw (e : ε) : Orderly free limit (MonadExcept.throw e : AttemptTo ω ε α) :=
  .elementary (.throw e)

theorem seeTrace : Orderly free limit (liftM Pass.trace : AttemptTo ω ε Trace) := .elementary .trace

theorem log (line : LogLine) : Orderly free limit (liftM (Pass.log line) : AttemptTo ω ε Unit) :=
  .elementary (.log line)

theorem failAt (reason : Trace → ε) :
    Orderly free limit (Pass.failAt reason : AttemptTo ω ε α) :=
  .bind seeTrace fun _ _ _ _ => throw _

theorem discard {x : AttemptTo ω ε α} (h : Orderly free limit x) :
    Orderly free limit (Functor.discard x) := by
  rw [discard_eq_bind]
  exact .bind h fun _ _ _ _ => pure _

theorem emit [Output ω] (p : Primitive) : Orderly (ω := ω) free limit (Pass.emit p) := by
  have written : Orderly (ω := ω) free limit (Pass.onEncoder (Encoder.write p)) :=
    .elementary (.onEncoder _)
  refine .bind written.outcome fun answer _ _ _ => ?_
  rcases answer with source | ⟨⟩
  · exact failAt _
  · exact pure ()

theorem unwrapped (env : Env) (v : Option Value) :
    Orderly (ω := ω) free limit (ExceptT.mk (onStore (Value.unwrap env.decls v).run)) :=
  .elementary (.onStore _)

theorem writingProperties [Output ω] {x : AttemptTo ω WriteError Unit} (h : Orderly free limit x) :
    Orderly free limit (Pass.writingProperties x) := .bind h fun _ _ _ _ => emit _

/-- Without frames of its own, a failure to unwrap is one at the place that the pass has come to. -/
theorem unwrap (env : Env) (v : Option Value) :
    Orderly (ω := ω) free limit (Pass.unwrap env [] v) := by
  refine .bind (unwrapped env v).outcome fun answer _ _ _ => ?_
  rcases answer with source | w
  · exact failAt _
  · exact pure w

/-- The frame of a failure to unwrap is put on the trace for as long as the place is told. -/
theorem unwrapAt (env : Env) {f : Frame} (allowed : free f) (v : Option Value) :
    Orderly (ω := ω) free limit (Pass.unwrap env [f] v) := by
  rw [unwrap_eq_framed]
  refine .bind (unwrapped env v).outcome fun answer _ _ _ => ?_
  rcases answer with source | w
  · exact .bind (.framed allowed seeTrace) fun _ _ _ _ => throw _
  · exact pure w

theorem writer? (env : Env) (type : TypeId) :
    Orderly free limit (liftM (Pass.writer? env type) : AttemptTo ω ε (Option Descriptor)) :=
  .elementary (.onBeans _)

/-- A way to write a value is found by asking for a writer at most. -/
theorem actionFor (env : Env) (v : Option Value) :
    Orderly free limit (liftM (Pass.actionFor env v) : AttemptTo ω ε (Option Action)) := by
  rcases v with _ | v
  · exact pure (some Action.null)
  rcases found : env.codecs.get? v.typeId with _ | e
  · simp only [Pass.actionFor, found]
    rw [liftM_bind]
    refine .bind (writer? env v.typeId) fun d _ _ _ => ?_
    rcases d with _ | d
    · exact pure (v.items?.map Action.sequence)
    · exact pure (some (Action.bean d v))
  · simp only [Pass.actionFor, found]
    exact pure (some (Action.codec e v))

end Orderly

end Pass

/-- The writes of a level are orderly, if the frames of their codecs satisfy `free`. -/
structure Nested.Orderly {ω : Type} (free : Frame → Prop) (limit : Nat) (below : Nested ω) :
    Prop where
  writeWith : ∀ {a : Action}, a.Frames free → Pass.Orderly free limit (below.writeWith a)
  encode : ∀ {e : Entry} {v : Value}, (e.codec v).Frames free →
    Pass.Orderly free limit (below.encode e v)

namespace Pass

namespace Orderly

variable {env : Env} {below : Nested ω} (others : ∀ f, f.isBean = false → free f)
  (codecs : env.codecs.Frames free) (h : below.Orderly free env.settings.maxDepth)

include codecs h

theorem writeValue (v : Option Value) :
    Orderly free env.settings.maxDepth (Pass.writeValue env below v) := by
  refine .bind (unwrap env v) fun w _ _ _ => .bind (actionFor env w) fun a _ _ found => ?_
  rcases a with _ | a
  · exact failAt _
  · exact h.writeWith ((known_of_actionFor found).frames codecs)

include others in
theorem writeElements (index : Nat) (vs : List Value) :
    Orderly free env.settings.maxDepth (Pass.writeElements env below index vs) := by
  induction vs generalizing index with
  | nil => exact pure ()
  | cons v vs ih =>
    have element : Orderly free env.settings.maxDepth
        (Pass.framed (.element index) (Pass.writeValue env below (some v))) :=
      .framed (others _ rfl) (writeValue codecs h (some v))
    exact .bind element fun _ _ _ _ => ih (index + 1)

variable [Output ω]

theorem propertyBody (name : String) (w : Option Value) :
    Orderly free env.settings.maxDepth (Pass.propertyBody env below name w) := by
  refine .bind (actionFor env w) fun a _ _ found => ?_
  rcases a with _ | a
  · dsimp only [omitProperty]
    split
    · exact .bind seeTrace fun _ _ _ _ => .bind (log _) fun _ _ _ _ => pure false
    · exact failAt _
  · have written : Orderly free env.settings.maxDepth (below.writeWith a) :=
      h.writeWith ((known_of_actionFor found).frames codecs)
    exact .bind (emit _) fun _ _ _ _ => .bind written fun _ _ _ _ =>
      .bind seeTrace fun _ _ _ _ => .bind (log _) fun _ _ _ _ => pure true

include others

theorem writeResolvedProperty (kind : PropertyKind) (name : String) (w : Option Value) :
    Orderly free env.settings.maxDepth (Pass.writeResolvedProperty env below kind name w) := by
  rw [writeResolvedProperty_eq_framed]
  exact .framed (others _ rfl) (propertyBody codecs h name w)

theorem writeNextProperty (name : String) (v : Option Value) (kind : PropertyKind) :
    Orderly free env.settings.maxDepth (Pass.writeNextProperty env below name v kind) := by
  unfold Pass.writeNextProperty
  split
  · exact failAt _
  · exact .bind (unwrapAt env (others _ rfl) v) fun w _ _ _ =>
      writeResolvedProperty others codecs h kind name w

theorem writeField (d : Descriptor) (v : Value) (conventions : Option Nat) (f : Field) :
    Orderly free env.settings.maxDepth (Pass.writeField env below d v conventions f) := by
  have property (w : Option Value) : Orderly free env.settings.maxDepth
      (Pass.writeNextProperty env below f.name w .field) :=
    writeNextProperty others codecs h f.name w .field
  unfold Pass.writeField
  rcases d.read f v with _ | raw
  · exact throw _
  rcases conventions with _ | mapping
  · exact (property (some raw)).discard
  · refine .bind (unwrapAt env (others _ rfl) (some raw)) fun own _ _ _ => ?_
    rcases own with _ | content
    · exact .bind (.elementary .get) fun _ _ _ _ => (property _).discard
    · exact (property (some content)).discard

theorem writeFields (d : Descriptor) (v : Value) (conventions : Option Nat) (fs : List Field) :
    Orderly free env.settings.maxDepth (Pass.writeFields env below d v conventions fs) := by
  induction fs with
  | nil => exact pure ()
  | cons f fs ih => exact .bind (writeField others codecs h d v conventions f) fun _ _ _ _ => ih

theorem writeFieldsOf (d : Descriptor) (v : Value) :
    Orderly free env.settings.maxDepth (Pass.writeFieldsOf env below d v) := by
  rw [writeFieldsOf_eq_underBean]
  exact .underBean _ (writeFields others codecs h d v _ d.fields).writingProperties

theorem writeBean (v : Value) :
    Orderly free env.settings.maxDepth (Pass.writeBean env below v) := by
  refine .bind (writer? env v.typeId) fun d _ _ _ => ?_
  rcases d with _ | d
  · exact throw _
  · exact writeFieldsOf others codecs h d v

/-- A codec is orderly, whatever it does, if its frames satisfy `free`. -/
theorem run (s : Script) (frames : s.Frames free) :
    Orderly free env.settings.maxDepth (Pass.run env below s) := by
  induction s with
  | done => exact pure ()
  | fail reason => exact throw reason
  | write p next ih =>
    exact .bind (outcome (.elementary (.onEncoder _))) fun answer _ _ _ => ih _ (frames answer)
  | tree t next ih =>
    exact .bind (outcome (.elementary (.onEncoder _))) fun answer _ _ _ => ih _ (frames answer)
  | value v next ih =>
    exact .bind (writeValue codecs h v).outcome fun answer _ _ _ => ih _ (frames answer)
  | bean v next ih =>
    exact .bind (writeBean others codecs h v).outcome fun answer _ _ _ => ih _ (frames answer)
  | property name v kind next ih =>
    exact .bind (writeNextProperty others codecs h name v kind).outcome fun answer _ _ _ =>
      ih _ (frames answer)
  | name name next ih =>
    exact .bind (emit _).outcome fun answer _ _ _ => ih _ (frames answer)
  | framed f body next body_ih ih =>
    obtain ⟨allowed, inside, behind⟩ := frames
    exact .bind (framed allowed (body_ih inside)).outcome fun answer _ _ _ => ih _ (behind answer)
  | reencode v next ih =>
    rw [Pass.run]
    split
    · rename_i e found
      exact .bind (h.encode (codecs found v)).outcome fun answer _ _ _ => ih _ (frames answer)
    · exact ih _ (frames _)
  | context next ih => exact .bind seeTrace fun t _ _ _ => ih t env.settings (frames _ _)
  | knows type next ih => exact .bind (writer? env type) fun d _ _ _ => ih d.isSome (frames _)

theorem encode (e : Entry) (v : Value) (frames : (e.codec v).Frames free) :
    Orderly free env.settings.maxDepth (Pass.encode env below e v) := by
  unfold Pass.encode
  split
  · exact run others codecs h _ frames
  · exact throw _

theorem writePayload (a : Action) (frames : a.Frames free) :
    Orderly free env.settings.maxDepth (Pass.writePayload env below a) := by
  cases a with
  | null => exact pure ()
  | codec e v =>
    refine .bind (encode others codecs h e v frames).outcome fun answer _ _ _ => ?_
    rcases answer with reason | ⟨⟩
    · exact failAt _
    · exact pure ()
  | bean d v => exact .bind (emit _) fun _ _ _ _ => writeFieldsOf others codecs h d v
  | sequence items => exact .bind (emit _) fun _ _ _ _ => writeElements others codecs h 0 items

theorem writeWith (a : Action) (frames : a.Frames free) :
    Orderly free env.settings.maxDepth (Pass.writeWith env below a) :=
  .bind (emit _) fun _ _ _ _ => writePayload others codecs h a frames

end Orderly

/-- The writes of every level are orderly. -/
theorem orderly_ofDepth {ω : Type} [Output ω] {env : Env} (others : ∀ f, f.isBean = false → free f)
    (codecs : env.codecs.Frames free) (depth : Nat) :
    (Nested.ofDepth env depth : Nested ω).Orderly free env.settings.maxDepth := by
  induction depth with
  | zero =>
    exact ⟨fun _ => .elementary (.abort _), fun _ => .elementary (.abort _)⟩
  | succ depth ih =>
    exact ⟨.writeWith others codecs ih _, .encode others codecs ih _ _⟩

end Pass

/-- A call is orderly. -/
theorem Call.orderly_run {ω : Type} [Output ω] {free : Frame → Prop} {env : Env}
    (others : ∀ f, f.isBean = false → free f) (codecs : env.codecs.Frames free) (c : Call)
    (depth : Nat) :
    Orderly (ω := ω) free env.settings.maxDepth (c.run env (.ofDepth env depth)) := by
  have below := orderly_ofDepth (ω := ω) others codecs depth
  cases c with
  | value v => exact .writeValue codecs below v
  | property name v kind => exact .writeNextProperty others codecs below name v kind
  | bean v => exact .writeBean others codecs below v

namespace Pass

variable {ω ε δ α β : Type} [Output ω]

/-! ### Clients of a pass -/

/-- What a client of a pass can do, where nested values are written by `below`: whatever can be put
together from the operations of the pass. -/
inductive Client (env : Env) (below : Nested ω) : {ε α : Type} → AttemptTo ω ε α → Prop
  | elementary {ε α : Type} {x : AttemptTo ω ε α} (h : Elementary x) : Client env below x
  | bind {ε α β : Type} {x : AttemptTo ω ε β} {f : β → AttemptTo ω ε α} (first : Client env below x)
      (next : ∀ b, Client env below (f b)) : Client env below (x >>= f)
  | outcome {ε δ α : Type} {x : AttemptTo ω δ α} (h : Client env below x) :
      Client env below (outcome x : AttemptTo ω ε (Except δ α))
  | framed {ε α : Type} (f : Frame) {x : AttemptTo ω ε α} (h : Client env below x) :
      Client env below (framed f x)
  | actionFor {ε : Type} (v : Option Value) :
      Client env below (liftM (actionFor env v) : AttemptTo ω ε (Option Action))
  | writeWith (a : Action) : Client env below (writeWith env below a)
  | writeValue (v : Option Value) : Client env below (writeValue env below v)
  | writeName (name : String) : Client env below (writeName name)
  | writingProperties {x : AttemptTo ω WriteError Unit} (h : Client env below x) :
      Client env below (writingProperties x)
  | writeNextProperty (name : String) (v : Option Value) (kind : PropertyKind) :
      Client env below (writeNextProperty env below name v kind)
  | writeFieldsOf (d : Descriptor) (v : Value) : Client env below (writeFieldsOf env below d v)
  | writeBean (v : Value) : Client env below (writeBean env below v)
  | encode (e : Entry) (v : Value) : Client env below (encode env below e v)

namespace Client

variable {env : Env} {depth : Nat}

/-- Clients are orderly. -/
theorem orderly {x : AttemptTo ω ε α} (h : Client env (.ofDepth env depth) x) :
    Orderly (fun _ => True) env.settings.maxDepth x := by
  have others : ∀ f : Frame, f.isBean = false → True := fun _ _ => trivial
  have every (s : Script) : s.Frames fun _ => True := s.frames_of_forall fun _ => trivial
  have codecs : env.codecs.Frames fun _ => True := fun _ _ => every _
  have below := orderly_ofDepth (ω := ω) others codecs depth
  have actions (a : Action) : a.Frames fun _ => True := by
    cases a with
    | codec e v => exact every _
    | _ => trivial
  induction h with
  | elementary h => exact .elementary h
  | bind _ _ ih next_ih => exact .bind ih fun b _ _ _ => next_ih b
  | outcome _ ih => exact ih.outcome
  | framed f _ ih => exact .framed trivial ih
  | actionFor v => exact .actionFor env v
  | writeWith a => exact .writeWith others codecs below a (actions a)
  | writeValue v => exact .writeValue codecs below v
  | writeName name => exact .emit _
  | writingProperties _ ih => exact ih.writingProperties
  | writeNextProperty name v kind => exact .writeNextProperty others codecs below name v kind
  | writeFieldsOf d v => exact .writeFieldsOf others codecs below d v
  | writeBean v => exact .writeBean others codecs below v
  | encode e v => exact .encode others codecs below e v (every _)

/-- A client that returns, with a value or with a failure, leaves the trace as it found it; and at
every moment in between, that trace is there below what was put on it. -/
theorem trace_restored {x : AttemptTo ω ε α} (h : Client env (.ofDepth env depth) x)
    (m : Machine ω) :
    Orderly (fun _ => True) env.settings.maxDepth x ∧
      (∀ answer m', x.run m = .ok answer m' → m'.trace = m.trace) ∧
      ∀ m', Moment (fun _ => True) env.settings.maxDepth x m m' → m.trace <:+ m'.trace :=
  ⟨h.orderly, fun _ _ => h.orderly.trace_eq, fun _ moment => moment.grown.suffix⟩

end Client

/-- A link that is too deep under a frame of the client: the failure tells of both frames, and the
client's one is taken off again. -/
theorem trace_restored_link :
    let env := { Link.env with settings := { maxDepth := 1 } }
    let m := { Link.machine with trace := [.element 3] }
    let x := framed (.bean "demo::Chain") (writeBean env (.ofDepth env 2) (Link.link none [97]))
    (∃ m', x.run m = .ok (.error (.tooDeep [.bean "demo::Chain", .element 3] 1)) m' ∧
      m'.trace = m.trace) ∧
      m.trace <:+ (m.enter (.bean "demo::Chain")).trace := by
  intro env m x
  have client : Client env (.ofDepth env 2) x := .framed _ (.writeBean _)
  obtain ⟨-, restored, moments⟩ := client.trace_restored m
  have run : ∃ m', x.run m = .ok (.error (.tooDeep [.bean "demo::Chain", .element 3] 1)) m' :=
    ⟨_, rfl⟩
  obtain ⟨m', run⟩ := run
  exact ⟨⟨m', run, restored _ m' run⟩,
    moments _ (.framed trivial (.first (Client.orderly (.writeBean _)) _))⟩

end Pass

end BeanStream
