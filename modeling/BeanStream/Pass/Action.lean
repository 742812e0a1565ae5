import BeanStream.Pass.Machine

/-!
# How a value is written

The action for a value that is not deferred, the first that applies: absence is null, a value
of a type with a **codec** is written by it, an instance of a **bean** type field by field, and
a **list** element by element. A value for which none applies cannot be written.
-/

namespace BeanStream

/-- How a value is written. -/
inductive Action where
  /-- Absence: nothing but the tag. -/
  | null
  /-- By a codec. -/
  | codec (e : Entry) (v : Value)
  /-- As a bean: its type path, then its properties. -/
  | bean (d : Descriptor) (v : Value)
  /-- As a sequence: its length, then its elements. -/
  | sequence (items : List Value)

/-- The tag in front of the payload. -/
def Action.tag : Action → Nat
  | .null => Tag.null
  | .codec e _ => e.tag
  | .bean _ _ => Tag.bean
  | .sequence _ => Tag.sequence

namespace Pass

variable {ω : Type}

/-- The writer of a bean type. -/
def writer? (env : Env) (type : TypeId) : PassTo ω (Option Descriptor) :=
  onBeans (Beans.writer? env.decls type)

/-- How a value is written, if it can be. -/
def actionFor (env : Env) : Option Value → PassTo ω (Option Action)
  | none => return some .null
  | some v =>
    match env.codecs.get? v.typeId with
    | some e => return some (.codec e v)
    | none => do
      match ← writer? env v.typeId with
      | some d => return some (.bean d v)
      | none => return v.items?.map .sequence

/-- The type path of a value, and of absence. -/
def typePathOf (env : Env) (v : Option Value) : String :=
  (v.map (Value.typePath env.decls)).getD "()"

/-- A value of a type with a codec is written by it, whatever else its type is. -/
theorem actionFor_of_codec {env : Env} {v : Value} {e : Entry}
    (h : env.codecs.get? v.typeId = some e) (m : Machine ω) :
    actionFor env (some v) m = .ok (some (.codec e v)) m := by
  simp [actionFor, h, pure, EStateM.pure]

/-- A value of a type without codec is written as a bean, if its type is known as one. -/
theorem actionFor_of_no_codec {env : Env} {v : Value}
    (h : env.codecs.get? v.typeId = none) (m : Machine ω) :
    actionFor env (some v) m =
      match writer? env v.typeId m with
      | .ok (some d) m' => .ok (some (.bean d v)) m'
      | .ok none m' => .ok (v.items?.map .sequence) m'
      | .error reason m' => .error reason m' := by
  simp only [actionFor, h]
  change EStateM.bind _ _ m = _
  rw [EStateM.bind]
  rcases writer? env v.typeId m with ⟨_ | d, m'⟩ | ⟨reason, m'⟩ <;> rfl

end Pass

end BeanStream
