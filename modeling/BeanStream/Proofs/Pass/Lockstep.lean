import BeanStream.Proofs.Pass.Resolution

/-!
# Passes in lockstep

Two passes that differ in the writes one level below only run in **lockstep**: each operation does
the same in both until one of these writes goes different ways. A `Lockstep` is a relation between
what becomes of the one pass and of the other that puts up with that: it relates equal outcomes,
and goes on relating after more is done, whatever the difference was.

Given that the writes one level below are related, **every operation of a pass is**
(`Agree.writeValue` to `Agree.writeBean`). Excepted are failures for too deep a nesting: what they
have to do with each other is for the user of the relation to say.
-/

namespace BeanStream

open Wire

/-- Whether beans are nested too deeply. -/
def WriteError.isTooDeep : WriteError → Bool
  | .tooDeep _ _ => true
  | _ => false

/-- Whether a pass is cut off because beans are nested too deeply. -/
def Outcome.isCutOff {ω α : Type} : Outcome WriteError α ω → Bool
  | .ok (.error e) _ => e.isTooDeep
  | _ => false

/-- What may become of two passes, one beside the other. -/
structure Lockstep (ω : Type := Encoder) where
  rel {α : Type} : Outcome WriteError α ω → Outcome WriteError α ω → Prop
  done {α : Type} (a : α) (m : Machine ω) : rel (.ok (.ok a) m) (.ok (.ok a) m)
  failed {α : Type} {e : WriteError} (h : e.isTooDeep = false) (m : Machine ω) :
    rel (α := α) (.ok (.error e) m) (.ok (.error e) m)
  aborted {α : Type} (reason : Abort) (m : Machine ω) :
    rel (α := α) (.error reason m) (.error reason m)
  /-- Going on keeps passes related. -/
  bind {α β : Type} {r r' : Outcome WriteError α ω} {f g : α → Machine ω → Outcome WriteError β ω}
    (first : rel r r') (next : ∀ a m, r = .ok (.ok a) m → rel (f a m) (g a m)) :
    rel (r.andThen f) (r'.andThen g)
  leave {α : Type} {r r' : Outcome WriteError α ω} (h : rel r r') : rel r.leave r'.leave

namespace Lockstep

open Pass

variable {ω : Type} (L : Lockstep ω) {α β : Type} {m : Machine ω}

/-- Run on `m`, two computations are related. -/
def Agree (x y : AttemptTo ω WriteError α) (m : Machine ω) : Prop := L.rel (x.run m) (y.run m)

variable {L}

/-- A computation is related to itself, unless it fails for too deep a nesting. -/
theorem agree_self {x : AttemptTo ω WriteError α}
    (h : Meets x m ⟨fun _ _ => True, fun e _ => e.isTooDeep = false, fun _ _ => True⟩) :
    L.Agree x x m := by
  unfold Agree
  rcases hx : x.run m with ⟨e | a, m'⟩ | ⟨reason, m'⟩
  · exact L.failed (h.failed hx) m'
  · exact L.done a m'
  · exact L.aborted reason m'

theorem Agree.bind {x y : AttemptTo ω WriteError α} {f g : α → AttemptTo ω WriteError β}
    (first : L.Agree x y m) (next : ∀ a m', x.run m = .ok (.ok a) m' → L.Agree (f a) (g a) m') :
    L.Agree (x >>= f) (y >>= g) m := by
  unfold Agree
  rw [run_bind, run_bind]
  exact L.bind first next

theorem Agree.discard {x y : AttemptTo ω WriteError α} (h : L.Agree x y m) :
    L.Agree (discard x) (discard y) m := by
  rw [discard_eq_bind, discard_eq_bind]
  exact h.bind fun _ m' _ => L.done _ m'

theorem Agree.framed {x y : AttemptTo ω WriteError α} {f : Frame} (h : L.Agree x y (m.enter f)) :
    L.Agree (framed f x) (framed f y) m := by
  unfold Agree
  rw [run_framed, run_framed]
  exact L.leave h

theorem agree_pure (a : α) : L.Agree (pure a) (pure a) m := L.done a m

theorem agree_failAt {reason : Trace → WriteError} (h : (reason m.trace).isTooDeep = false) :
    L.Agree (α := α) (failAt reason) (failAt reason) m :=
  agree_self ((meets_failAt reason).2 h)

theorem agree_throw {e : WriteError} (h : e.isTooDeep = false) :
    L.Agree (α := α) (throw e) (throw e) m :=
  L.failed h m

theorem agree_lift {x : PassTo ω α} : L.Agree (liftM x) (liftM x) m := by
  refine agree_self (meets_lift.2 ?_)
  rcases x m with ⟨a, m'⟩ | ⟨reason, m'⟩ <;> trivial

theorem agree_get : L.Agree (getThe (Machine ω)) (getThe (Machine ω)) m := L.done m m

theorem agree_emit [Output ω] (p : Primitive) : L.Agree (emit p) (emit p) m := by
  refine agree_self ((meets_emit p).2 ?_)
  rcases Encoder.write p m.encoder with ⟨⟨⟩, encoder⟩ | ⟨source, encoder⟩
  · trivial
  · rfl

theorem agree_unwrap {env : Env} {frame : List Frame} {v : Option Value} :
    L.Agree (unwrap env frame v) (unwrap env frame v) m := by
  refine agree_self ((meets_unwrap env frame v).2 ?_)
  rcases (Value.unwrap env.decls v).run m.store with ⟨source | w, store⟩ | ⟨reason, store⟩
  · rfl
  · trivial
  · trivial

/-! ### Operations over related writes -/

section Operations

variable {env : Env} {below below' : Nested ω}
  (h : ∀ a m, a.Known env → L.Agree (below.writeWith a) (below'.writeWith a) m)

include h

theorem Agree.writeValue (v : Option Value) :
    L.Agree (writeValue env below v) (writeValue env below' v) m := by
  refine agree_unwrap.bind fun w m₁ _ => ?_
  refine agree_lift.bind fun a m₂ found => ?_
  rcases a with _ | a
  · exact agree_failAt rfl
  · exact h a m₂ (known_of_actionFor found)

theorem Agree.writeElements (index : Nat) (vs : List Value) :
    L.Agree (writeElements env below index vs) (writeElements env below' index vs) m := by
  induction vs generalizing index m with
  | nil => exact agree_pure ()
  | cons v vs ih =>
    refine Agree.bind ?_ fun _ _ _ => ih (index + 1)
    exact Agree.framed (Agree.writeValue h (some v))

variable [Output ω]

theorem Agree.writeResolvedProperty (kind : PropertyKind) (name : String) (w : Option Value) :
    L.Agree (writeResolvedProperty env below kind name w)
      (writeResolvedProperty env below' kind name w) m := by
  refine Agree.framed (agree_lift.bind fun a m₁ found => ?_)
  rcases a with _ | a
  · dsimp only [omitProperty]
    split
    · exact agree_lift.bind fun _ _ _ => agree_lift.bind fun _ _ _ => agree_pure false
    · exact agree_failAt rfl
  · refine (agree_emit (.string name)).bind fun _ m₂ _ => ?_
    refine (h a m₂ (known_of_actionFor found)).bind fun _ m₃ _ => ?_
    exact agree_lift.bind fun _ _ _ => agree_lift.bind fun _ _ _ => agree_pure true

theorem Agree.writeNextProperty (name : String) (v : Option Value) (kind : PropertyKind) :
    L.Agree (writeNextProperty env below name v kind) (writeNextProperty env below' name v kind)
      m := by
  rw [Pass.writeNextProperty, Pass.writeNextProperty]
  split
  · exact agree_failAt rfl
  · exact agree_unwrap.bind fun w _ _ => Agree.writeResolvedProperty h kind name w

theorem Agree.writeField (d : Descriptor) (v : Value) (conventions : Option Nat) (f : Field) :
    L.Agree (writeField env below d v conventions f) (writeField env below' d v conventions f)
      m := by
  rw [Pass.writeField, Pass.writeField]
  rcases d.read f v with _ | raw
  · exact agree_throw rfl
  rcases conventions with _ | mapping
  · exact (Agree.writeNextProperty h f.name (some raw) .field).discard
  · refine agree_unwrap.bind fun own _ _ => ?_
    rcases own with _ | content
    · exact agree_get.bind fun _ _ _ => (Agree.writeNextProperty h f.name _ .field).discard
    · exact (Agree.writeNextProperty h f.name (some content) .field).discard

theorem Agree.writeFields (d : Descriptor) (v : Value) (conventions : Option Nat)
    (fs : List Field) :
    L.Agree (writeFields env below d v conventions fs) (writeFields env below' d v conventions fs)
      m := by
  induction fs generalizing m with
  | nil => exact agree_pure ()
  | cons f fs ih => exact (Agree.writeField h d v conventions f).bind fun _ _ _ => ih

/-- A bean agrees with itself within the limit; what happens beyond it is for `tooDeep` to say. -/
theorem Agree.writeFieldsOf (d : Descriptor) (v : Value)
    (tooDeep : env.settings.maxDepth ≤ m.trace.beanDepth →
      let r : Outcome WriteError Unit ω := .ok (.error (.tooDeep m.trace env.settings.maxDepth)) m
      L.rel r r) :
    L.Agree (writeFieldsOf env below d v) (writeFieldsOf env below' d v) m := by
  refine Agree.bind agree_lift fun trace m₁ found => ?_
  cases run_trace.symm.trans found
  split
  · rename_i deep
    exact tooDeep deep
  -- within the limit, the properties and the empty name are written behind the frame of the bean
  · refine Agree.framed (Agree.bind ?_ fun _ _ _ => agree_emit (.string ""))
    exact Agree.writeFields h d v _ d.fields

theorem Agree.writeBean (v : Value)
    (tooDeep : ∀ beans, env.settings.maxDepth ≤ m.trace.beanDepth →
      let r : Outcome WriteError Unit ω :=
        .ok (.error (.tooDeep m.trace env.settings.maxDepth)) { m with beans }
      L.rel r r) :
    L.Agree (writeBean env below v) (writeBean env below' v) m := by
  refine Agree.bind agree_lift fun d m₁ found => ?_
  obtain ⟨beans, rfl⟩ := beans_of_writer? found
  rcases d with _ | d
  · exact agree_throw rfl
  · exact Agree.writeFieldsOf h d v (tooDeep beans)

end Operations

end Lockstep

end BeanStream
