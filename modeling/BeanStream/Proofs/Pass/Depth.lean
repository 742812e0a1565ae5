import BeanStream.Proofs.Pass.Lockstep

/-!
# The depth of a pass does not matter

A pass that does not run out of depth does **the same at every greater depth** (`Call.run_of_le`).
So a depth is a bound on the work that is spent on a pass, and no part of its result.
-/

namespace BeanStream

open Wire Pass

/-- What a pass can be asked to do. -/
inductive Call where
  /-- To write a value with its tag. -/
  | value (v : Option Value)
  /-- To write a property. -/
  | property (name : String) (v : Option Value) (kind : PropertyKind)
  /-- To write the properties of a bean. -/
  | bean (v : Value)

namespace Call

/-- What is answered to a call: whether a property was written. -/
def Answer : Call → Type
  | .value _ | .bean _ => Unit
  | .property _ _ _ => Bool

/-- Does what was asked for, given how values one level below are written. -/
def run {ω : Type} [Output ω] (env : Env) (below : Nested ω) :
    (c : Call) → AttemptTo ω WriteError c.Answer
  | .value v => writeValue env below v
  | .property name v kind => writeNextProperty env below name v kind
  | .bean v => writeBean env below v

end Call

/-- The first computation ran out of depth, or the second one did the same. -/
def Deeper {ω ε α : Type} (r r' : Outcome ε α ω) : Prop := (∃ m, r = .error .overflow m) ∨ r = r'

section Deeper

variable {ω ε δ α β : Type}

theorem Deeper.rfl {r : Outcome ε α ω} : Deeper r r := .inr (Eq.refl _)

theorem Deeper.trans {r r' r'' : Outcome ε α ω} (h : Deeper r r') (h' : Deeper r' r'') :
    Deeper r r'' := by
  rcases h with h | rfl
  · exact .inl h
  · exact h'

theorem Deeper.andThen {r r' : Outcome ε α ω} {f g : α → Machine ω → Outcome ε β ω}
    (first : Deeper r r') (next : ∀ a m, r = .ok (.ok a) m → Deeper (f a m) (g a m)) :
    Deeper (r.andThen f) (r'.andThen g) := by
  rcases first with ⟨m, rfl⟩ | rfl
  · exact .inl ⟨m, Eq.refl _⟩
  · rcases r with ⟨e | a, m⟩ | ⟨reason, m⟩
    · exact .rfl
    · exact next a m (Eq.refl _)
    · exact .rfl

theorem Deeper.resume {r r' : Outcome δ α ω} {f g : Except δ α → Machine ω → Outcome ε β ω}
    (first : Deeper r r') (next : ∀ answer m, Deeper (f answer m) (g answer m)) :
    Deeper (r.resume f) (r'.resume g) := by
  rcases first with ⟨m, rfl⟩ | rfl
  · exact .inl ⟨m, Eq.refl _⟩
  · rcases r with ⟨answer, m⟩ | ⟨reason, m⟩
    · exact next answer m
    · exact .rfl

theorem Deeper.leave {r r' : Outcome ε α ω} (h : Deeper r r') : Deeper r.leave r'.leave := by
  rcases h with ⟨m, rfl⟩ | rfl
  · exact .inl ⟨m, Eq.refl _⟩
  · exact .rfl

end Deeper

/-- A pass and a deeper one. -/
def deeper {ω : Type} : Lockstep ω where
  rel := Deeper
  done _ _ := .rfl
  failed _ _ := .rfl
  aborted _ _ := .rfl
  bind := .andThen
  leave h := h.leave

/-- The writes of the one level go as far as those of the other, or end in the same way. -/
structure Nested.Deeper {ω : Type} (below below' : Nested ω) : Prop where
  writeWith : ∀ a m, BeanStream.Deeper ((below.writeWith a).run m) ((below'.writeWith a).run m)
  encode : ∀ e v m, BeanStream.Deeper ((below.encode e v).run m) ((below'.encode e v).run m)

namespace Pass

variable {ω : Type} [Output ω] {env : Env} {below below' : Nested ω}

/-- A script does the same over deeper writes. -/
theorem run_deeper (h : below.Deeper below') (s : Script) (m : Machine ω) :
    Deeper ((run env below s).run m) ((run env below' s).run m) := by
  have agree (a : Action) (m : Machine ω) (_ : a.Known env) :
      deeper.Agree (below.writeWith a) (below'.writeWith a) m := h.writeWith a m
  -- over the steps of the script: what follows an answer is a script for each answer
  induction s generalizing m with
  | done => exact .rfl
  | fail reason => exact .rfl
  | write p next ih | tree t next ih =>
    simp only [run, run_outcome_bind]
    exact Deeper.rfl.resume ih
  | value v next ih =>
    simp only [run, run_outcome_bind]
    exact (Lockstep.Agree.writeValue agree v).resume ih
  | bean v next ih =>
    simp only [run, run_outcome_bind]
    exact (Lockstep.Agree.writeBean agree v fun _ _ => .rfl).resume ih
  | property name v kind next ih =>
    simp only [run, run_outcome_bind]
    exact (Lockstep.Agree.writeNextProperty agree name v kind).resume ih
  | name name next ih =>
    simp only [run, run_outcome_bind]
    exact Deeper.rfl.resume ih
  | framed frame body next body_ih ih =>
    simp only [run, run_outcome_bind, run_framed]
    exact (body_ih _).leave.resume ih
  | reencode v next ih =>
    rcases found : env.codecs.get? v.typeId with _ | e
    · simp only [run, found]
      exact ih _ m
    · simp only [run, found, run_outcome_bind]
      exact (h.encode e v m).resume ih
  | context next ih =>
    simp only [run, run_bind]
    exact Deeper.rfl.andThen fun trace m₁ _ => ih trace env.settings m₁
  | knows type next ih =>
    simp only [run, run_bind]
    exact Deeper.rfl.andThen fun d m₁ _ => ih d.isSome m₁

theorem encode_deeper (h : below.Deeper below') (e : Entry) (v : Value) (m : Machine ω) :
    Deeper ((encode env below e v).run m) ((encode env below' e v).run m) := by
  rw [encode, encode]
  split
  · exact run_deeper h _ m
  · exact .rfl

theorem writeWith_deeper (h : below.Deeper below') (a : Action) (m : Machine ω) :
    Deeper ((writeWith env below a).run m) ((writeWith env below' a).run m) := by
  have agree (a : Action) (m : Machine ω) (_ : a.Known env) :
      deeper.Agree (below.writeWith a) (below'.writeWith a) m := h.writeWith a m
  rw [writeWith, writeWith, run_bind, run_bind]
  -- both begin with the tag, and part ways in the payload only
  refine Deeper.rfl.andThen fun _ m₁ _ => ?_
  cases a with
  | null => exact .rfl
  | codec e v =>
    simp only [writePayload, run_outcome_bind]
    exact (encode_deeper h e v m₁).resume fun _ _ => .rfl
  | bean d v =>
    simp only [writePayload, run_bind]
    exact Deeper.rfl.andThen fun _ m₂ _ => Lockstep.Agree.writeFieldsOf agree d v fun _ => .rfl
  | sequence items =>
    simp only [writePayload, run_bind]
    exact Deeper.rfl.andThen fun _ m₂ _ => Lockstep.Agree.writeElements agree 0 items

/-- One more level. -/
theorem ofDepth_deeper (env : Env) (depth : Nat) :
    (Nested.ofDepth env depth : Nested ω).Deeper (.ofDepth env (depth + 1)) := by
  induction depth with
  | zero => exact ⟨fun _ m => .inl ⟨m, rfl⟩, fun _ _ m => .inl ⟨m, rfl⟩⟩
  | succ depth ih => exact ⟨writeWith_deeper ih, encode_deeper ih⟩

end Pass

namespace Call

variable {ω : Type} [Output ω]

/-- A call does the same over deeper writes. -/
theorem run_deeper {env : Env} {below below' : Nested ω} (h : below.Deeper below') (c : Call)
    (m : Machine ω) : Deeper ((c.run env below).run m) ((c.run env below').run m) := by
  have agree (a : Action) (m : Machine ω) (_ : a.Known env) :
      deeper.Agree (below.writeWith a) (below'.writeWith a) m := h.writeWith a m
  cases c with
  | value v => exact Lockstep.Agree.writeValue agree v
  | property name v kind => exact Lockstep.Agree.writeNextProperty agree name v kind
  | bean v => exact Lockstep.Agree.writeBean agree v fun _ _ => .rfl

/-- A call that does not run out of depth does the same at every greater depth. -/
theorem run_of_le {env : Env} {c : Call} {m : Machine ω} {depth depth' : Nat}
    (enough : ∀ m', (c.run env (.ofDepth env depth)).run m ≠ .error .overflow m')
    (h : depth ≤ depth') :
    (c.run env (.ofDepth env depth')).run m = (c.run env (.ofDepth env depth)).run m := by
  have deep : Deeper ((c.run env (.ofDepth env depth)).run m)
      ((c.run env (.ofDepth env depth')).run m) := by
    -- one level after the other
    induction h with
    | refl => exact .rfl
    | @step deep _ ih => exact ih.trans (run_deeper (ofDepth_deeper env deep) c m)
  rcases deep with ⟨m', overflow⟩ | same
  · exact absurd overflow (enough m')
  · exact same.symm

end Call

end BeanStream
