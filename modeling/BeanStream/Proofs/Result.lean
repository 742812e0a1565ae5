/-!
# What computations come to, and what they leave behind

A computation on a state comes to a value or to an error (`answer`), and leaves a state behind in
both cases (`aftermath`). Two computations are **alike** if they come to the same and the states
that they leave behind are related (`Alike`).
-/

namespace BeanStream

variable {ε σ α β : Type}

/-- What a computation leaves behind, whatever it comes to. -/
def aftermath : EStateM.Result ε σ α → σ
  | .ok _ s => s
  | .error _ s => s

/-- What a computation comes to, whatever it leaves behind. -/
def answer : EStateM.Result ε σ α → Except ε α
  | .ok a _ => .ok a
  | .error e _ => .error e

/-- Two computations come to the same, and what they leave behind is related. -/
inductive Alike (R : σ → σ → Prop) : EStateM.Result ε σ α → EStateM.Result ε σ α → Prop
  | ok (a) {s s'} (left : R s s') : Alike R (.ok a s) (.ok a s')
  | error (e) {s s'} (left : R s s') : Alike R (.error e s) (.error e s')

namespace Alike

variable {R S : σ → σ → Prop} {r r' r'' : EStateM.Result ε σ α}

theorem answer_eq (h : Alike R r r') : answer r = answer r' := by
  cases h with
  | ok a _ => rfl
  | error e _ => rfl

theorem left (h : Alike R r r') : R (aftermath r) (aftermath r') := by
  cases h with
  | ok _ left => exact left
  | error _ left => exact left

theorem of_answer_eq (same : answer r = answer r') (left : R (aftermath r) (aftermath r')) :
    Alike R r r' := by
  rcases r with ⟨a, s⟩ | ⟨e, s⟩ <;> rcases r' with ⟨a', s'⟩ | ⟨e', s'⟩ <;> cases same
  · exact .ok a left
  · exact .error e left

theorem of_self (h : ∀ s, R s s) (r : EStateM.Result ε σ α) : Alike R r r :=
  of_answer_eq rfl (h _)

theorem imp (h : Alike R r r') (weaker : ∀ s s', R s s' → S s s') : Alike S r r' :=
  of_answer_eq h.answer_eq (weaker _ _ h.left)

theorem trans (h : Alike R r r') (h' : Alike R r' r'')
    (transitive : ∀ s s' s'', R s s' → R s' s'' → R s s'') : Alike R r r'' :=
  of_answer_eq (h.answer_eq.trans h'.answer_eq) (transitive _ _ _ h.left h'.left)

end Alike

end BeanStream
