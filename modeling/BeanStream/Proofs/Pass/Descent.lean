import BeanStream.Proofs.Codec.Flat
import BeanStream.Proofs.Pass.Resolution
import BeanStream.Proofs.Store.Lists

/-!
# How a pass descends

Writes are nested where the write of a bean leads to that of a value of one of its fields, and where
the write of a list leads to that of an element. `Descends env s a t k t'` tells that `k` nested
writes have begun, one within the other, from the write of `a` with the trace `t` down to one with
the trace `t'`, over values that belong to the object graph in the store `s`.

Codecs that are flat make no nested writes. So if a pass **runs out of depth**, it has descended as
many levels as it was given (`keeps_ofDepth`); and it is not aborted for another reason, unless
something panics.
-/

namespace BeanStream

open Relation Wire

/-- Only a list has elements. -/
theorem Value.eq_sequence_of_items? {v : Value} {items : List Value} (h : v.items? = some items) :
    ∃ type, v = .sequence type items := by
  cases v with
  | sequence type own =>
    cases h
    exact ⟨type, rfl⟩
  | _ => cases h

/-- Fields that are promised to be named well, and are not, are a panic. -/
private theorem panic_of_describe {decls : Declarations} {type : TypeId} {reason : Abort}
    (h : decls.describe type = .error reason) : reason = .panic := by
  rw [Declarations.describe, Descriptor.ofDeclaration] at h
  split at h
  · rw [Descriptor.ofFields] at h
    split at h <;> cases h
    rfl
  · cases h

/-- Asking for the writer of a type is aborted only where a bean type describes itself wrongly. -/
theorem Beans.panic_of_writer? {decls : Declarations} {type : TypeId} {reason : Abort}
    {b b' : Beans} (h : writer? decls type b = .error reason b') : reason = .panic := by
  have asked {r r' : BeanRegistry} (h : BeanRegistry.get? decls type r = .error reason r') :
      reason = .panic := by
    rw [BeanRegistry.get?] at h
    split at h
    · cases h
    · cases h
    · cases h
    · dsimp only at h
      split at h
      · cases h
        exact panic_of_describe ‹_›
      · cases h
        rfl
      · cases h
  rcases cached : b.writers.get? type with _ | d
  · rw [writer?_of_not_cached cached] at h
    rcases found : BeanRegistry.get? decls type b.registry with ⟨_ | d, r⟩ | ⟨e, r⟩ <;>
      rw [found] at h
    · cases h
    · cases h
    · cases h
      exact asked found
  · rw [writer?_of_cached cached] at h
    cases h

/-- A value that is unwrapped in the store `s` or later may be written by this action. -/
inductive Store.LeadsTo (env : Env) (s : Store) : Option Value → Action → Prop
  | null (u) : LeadsTo env s u .null
  | codec {u w e} : ReflTransGen (s.Exposes env.decls) u w → env.codecs.get? w.typeId = some e →
      LeadsTo env s (some u) (.codec e w)
  | bean {u w} (d) : ReflTransGen (s.Exposes env.decls) u w → LeadsTo env s (some u) (.bean d w)
  | sequence {u type items} : ReflTransGen (s.Exposes env.decls) u (.sequence type items) →
      LeadsTo env s (some u) (.sequence items)

/-- From the write of an action, nested writes have begun. -/
inductive Descends (env : Env) (s : Store) : Action → Trace → Nat → Trace → Prop
  | here (a t) : Descends env s a t 0 t
  /-- Into the value of a field. Beans are entered up to the limit. -/
  | field {d v u a k t'} {t : Trace} (f : Field) : t.beanDepth < env.settings.maxDepth →
      s.Part env.decls v u → s.LeadsTo env (some u) a →
      Descends env s a (.property .field f.name :: .bean d.path :: t) k t' →
      Descends env s (.bean d v) t (k + 1) t'
  /-- Into an element. -/
  | element {items u a t k t'} (index : Nat) : u ∈ items → s.LeadsTo env (some u) a →
      Descends env s a (.element index :: t) k t' →
      Descends env s (.sequence items) t (k + 1) t'

namespace Store.LeadsTo

variable {env : Env} {s : Store} {a : Action}

/-- What a container may expose leads on. -/
theorem of_exposed {u v : Value} (h : ReflTransGen (s.Exposes env.decls) u v)
    (leads : s.LeadsTo env (some v) a) : s.LeadsTo env (some u) a := by
  cases leads with
  | null => exact .null _
  | codec reaches found => exact .codec (h.trans reaches) found
  | bean d reaches => exact .bean d (h.trans reaches)
  | sequence reaches => exact .sequence (h.trans reaches)

/-- A way to write a value is known. -/
theorem known {u : Option Value} (leads : s.LeadsTo env u a) : a.Known env := by
  cases leads with
  | codec _ found => exact found
  | _ => trivial

end Store.LeadsTo

namespace Pass

variable {ω ε α β : Type} {decls : Declarations} {env : Env} {s : Store} {m : Machine ω}

/-- Run on `m`, a computation puts the trace back, leaves a store that is later than `s`, and comes
to what satisfies `P`; or it fails. It may be aborted by something that panics, and where it runs
out of depth, the trace satisfies `Q`. -/
def Keeps (decls : Declarations) (s : Store) (x : AttemptTo ω ε α) (m : Machine ω) (P : α → Prop)
    (Q : Trace → Prop) : Prop :=
  Meets x m
    { done := fun a m' => m'.trace = m.trace ∧ s.Later decls m'.store ∧ P a
      failed := fun _ _ => True
      aborted := fun reason m' => reason = .panic ∨ (reason = .overflow ∧ Q m'.trace) }

variable {P P' : α → Prop} {Q Q' : Trace → Prop}

theorem Keeps.imp {x : AttemptTo ω ε α} (h : Keeps decls s x m P Q) (done : ∀ a, P a → P' a)
    (deep : ∀ t, Q t → Q' t) : Keeps decls s x m P' Q' := by
  refine Meets.imp h ?_ (fun _ _ => id) ?_
  · rintro a m' ⟨trace, later, hP⟩
    exact ⟨trace, later, done a hP⟩
  · rintro reason m' (panic | ⟨overflow, hQ⟩)
    · exact .inl panic
    · exact .inr ⟨overflow, deep _ hQ⟩

theorem Keeps.bind {x : AttemptTo ω ε α} {f : α → AttemptTo ω ε β} {R : β → Prop}
    (first : Keeps decls s x m P Q)
    (next : ∀ a m', m'.trace = m.trace → s.Later decls m'.store → P a →
      Keeps decls s (f a) m' R Q) : Keeps decls s (x >>= f) m R Q := by
  refine meets_bind.2 (Meets.imp first ?_ (fun _ _ => id) fun _ _ => id)
  rintro a m' ⟨trace, later, hP⟩
  refine Meets.imp (next a m' trace later hP) ?_ (fun _ _ => id) fun _ _ => id
  rintro b m'' ⟨trace', later', hR⟩
  exact ⟨trace'.trans trace, later', hR⟩

theorem keeps_pure {a : α} (later : s.Later decls m.store) (h : P a) :
    Keeps decls s (pure a : AttemptTo ω ε α) m P Q :=
  (meets_pure a).2 ⟨rfl, later, h⟩

theorem keeps_throw {e : ε} : Keeps decls s (throw e : AttemptTo ω ε α) m P Q := trivial

theorem keeps_failAt {reason : Trace → ε} :
    Keeps decls s (failAt reason : AttemptTo ω ε α) m P Q :=
  (meets_failAt reason).2 trivial

theorem Keeps.framed {x : AttemptTo ω ε α} {f : Frame} (h : Keeps decls s x (m.enter f) P Q) :
    Keeps decls s (framed f x) m P Q := by
  refine meets_framed.2 (Meets.imp h ?_ (fun _ _ => id) fun _ _ => id)
  rintro a m' ⟨trace, later, hP⟩
  exact ⟨by rw [Machine.trace_leave, trace]; rfl, later, hP⟩

theorem Keeps.discard {x : AttemptTo ω ε α} (h : Keeps decls s x m P Q) :
    Keeps decls s (discard x) m (fun _ => True) Q :=
  meets_discard.2 (Meets.imp h (fun _ _ h => ⟨h.1, h.2.1, trivial⟩) (fun _ _ => id) fun _ _ => id)

theorem keeps_trace {P : Trace → Prop} (later : s.Later decls m.store) (h : P m.trace) :
    Keeps (ε := ε) decls s (liftM Pass.trace) m P Q :=
  meets_trace.2 ⟨rfl, later, h⟩

theorem keeps_log {line : LogLine} (later : s.Later decls m.store) :
    Keeps (ε := ε) decls s (liftM (log line)) m (fun _ => True) Q :=
  (meets_log line).2 ⟨rfl, later, trivial⟩

theorem keeps_get {P : Machine ω → Prop} (later : s.Later decls m.store) (h : P m) :
    Keeps (ε := ε) decls s (getThe (Machine ω)) m P Q :=
  meets_get.2 ⟨rfl, later, h⟩

theorem keeps_emit [Output ω] (p : Primitive) (later : s.Later decls m.store) :
    Keeps decls s (emit p) m (fun _ => True) Q := by
  refine (meets_emit p).2 ?_
  rcases Encoder.write p m.encoder with ⟨⟨⟩, encoder⟩ | ⟨source, encoder⟩
  · exact ⟨rfl, later, trivial⟩
  · trivial

/-- Unwrapping reaches what the containers of the graph may expose. -/
theorem keeps_unwrap {frame : List Frame} {v : Option Value} (unshared : s.Unshared)
    (later : s.Later env.decls m.store) :
    Keeps env.decls s (unwrap env frame v) m
      (fun w => ∀ a, s.LeadsTo env w a → s.LeadsTo env v a) Q := by
  refine (meets_unwrap env frame v).2 ?_
  -- what is reached in the store at hand could be reached in `s`
  have spec := Value.unwrap_spec env.decls v m.store
  generalize (Value.unwrap env.decls v).run m.store = r at spec
  rcases r with ⟨source | w, store⟩ | ⟨reason, store⟩
  · trivial
  · refine ⟨rfl, later.trans spec.1, fun a leads => ?_⟩
    rcases w with _ | w
    · cases leads
      exact .null v
    · obtain ⟨u, rfl, reaches⟩ := spec.2 w rfl
      exact .of_exposed (later.reaches reaches) leads
  · exact .inl (spec (later.unshared unshared))

/-- Asking for the writer of a type changes nothing but the beans. -/
theorem keeps_writer? {type : TypeId} (later : s.Later env.decls m.store) :
    Keeps (ε := ε) env.decls s (liftM (writer? env type)) m (fun _ => True) Q := by
  refine (meets_writer? env type).2 ?_
  rcases writer : Beans.writer? env.decls type m.beans with ⟨d, beans⟩ | ⟨reason, beans⟩
  · exact ⟨rfl, later, trivial⟩
  · exact .inl (Beans.panic_of_writer? writer)

/-- The way to write a value is one that the value leads to. -/
theorem keeps_actionFor (w : Option Value) (later : s.Later env.decls m.store) :
    Keeps (ε := ε) env.decls s (liftM (actionFor env w)) m
      (fun a => ∀ a', a = some a' → s.LeadsTo env w a') Q := by
  refine meets_lift.2 ?_
  rcases w with _ | w
  · refine ⟨rfl, later, ?_⟩
    rintro a' ⟨⟩
    exact .null none
  rcases codec : env.codecs.get? w.typeId with _ | e
  · simp only [actionFor, codec, writer?, onBeans, bind, EStateM.bind]
    rcases writer : Beans.writer? env.decls w.typeId m.beans with
      ⟨_ | d, beans⟩ | ⟨reason, beans⟩
    · refine ⟨rfl, later, fun a' found => ?_⟩
      obtain ⟨items, list, rfl⟩ := Option.map_eq_some_iff.1 found
      obtain ⟨type, rfl⟩ := Value.eq_sequence_of_items? list
      exact .sequence .refl
    · refine ⟨rfl, later, ?_⟩
      rintro a' ⟨⟩
      exact .bean d .refl
    · exact .inl (Beans.panic_of_writer? writer)
  · rw [actionFor_of_codec codec]
    refine ⟨rfl, later, ?_⟩
    rintro a' ⟨⟩
    exact .codec .refl codec

end Pass

/-! ### Operations, given the writes one level below -/

/-- The writes one level below keep to their part, for values that `u` leads to and for the
trace `t`. -/
def Nested.Keeps {ω : Type} (env : Env) (s : Store) (below : Nested ω) (u : Option Value)
    (t : Trace) (Q : Trace → Prop) : Prop :=
  ∀ a m, s.LeadsTo env u a → m.trace = t → s.Later env.decls m.store →
    Pass.Keeps env.decls s (below.writeWith a) m (fun _ => True) Q

/-- A field of a bean is a part of it. -/
theorem Descriptor.part_of_read {decls : Declarations} {s : Store} {d : Descriptor} {f : Field}
    {v raw : Value} (h : d.read f v = some raw) : s.Part decls v raw := by
  unfold read at h
  split at h
  · split at h
    · exact .field (List.mem_of_getElem? h)
    · cases h
  · cases h

/-- A convention of a bean is a part of it. -/
theorem Descriptor.part_of_conventionsOf {decls : Declarations} {s : Store} {d : Descriptor}
    {v u : Value} {mapping : Nat} {name : String} (h : d.conventionsOf v = some mapping)
    (found : s.conventionValue mapping name = some u) : s.Part decls v u := by
  unfold conventionsOf at h
  split at h
  · split at h
    · cases h
      exact .convention found
    · cases h
  · cases h

namespace Pass

variable {ω : Type} [Output ω] {env : Env} {s : Store} {below : Nested ω} {m : Machine ω}
  {Q : Trace → Prop}

omit [Output ω] in
theorem keeps_writeValue {v : Option Value} (unshared : s.Unshared)
    (later : s.Later env.decls m.store) (h : below.Keeps env s v m.trace Q) :
    Keeps env.decls s (writeValue env below v) m (fun _ => True) Q := by
  refine (keeps_unwrap unshared later).bind fun w m₁ trace₁ later₁ leads => ?_
  refine (keeps_actionFor w later₁).bind fun a m₂ trace₂ later₂ chosen => ?_
  rcases a with _ | a
  · exact keeps_failAt
  · exact h a m₂ (leads a (chosen a rfl)) (trace₂.trans trace₁) later₂

omit [Output ω] in
theorem keeps_writeElements {vs : List Value} {index : Nat} (unshared : s.Unshared)
    (later : s.Later env.decls m.store)
    (h : ∀ index, ∀ v ∈ vs, below.Keeps env s (some v) (.element index :: m.trace) Q) :
    Keeps env.decls s (writeElements env below index vs) m (fun _ => True) Q := by
  induction vs generalizing index m with
  | nil => exact keeps_pure later trivial
  | cons v vs ih =>
    have first : below.Keeps env s (some v) (m.enter (.element index)).trace Q :=
      h index v (List.mem_cons_self ..)
    have written := (keeps_writeValue (m := m.enter _) unshared later first).framed
    refine written.bind fun _ m₁ trace₁ later₁ _ => ih later₁ fun index w mem => ?_
    rw [trace₁]
    exact h index w (List.mem_cons_of_mem v mem)

theorem keeps_writeResolvedProperty {kind : PropertyKind} {name : String} {w : Option Value}
    (later : s.Later env.decls m.store)
    (h : below.Keeps env s w (.property kind name :: m.trace) Q) :
    Keeps env.decls s (writeResolvedProperty env below kind name w) m (fun _ => True) Q := by
  refine Keeps.framed ((keeps_actionFor w (m := m.enter _) later).bind
    fun a m₁ trace₁ later₁ chosen => ?_)
  rcases a with _ | a
  · dsimp only [omitProperty]
    split
    · refine (keeps_trace (P := fun _ => True) later₁ trivial).bind fun t m₂ _ later₂ _ => ?_
      exact (keeps_log later₂).bind fun _ m₃ _ later₃ _ => keeps_pure later₃ trivial
    · exact keeps_failAt
  · refine (keeps_emit (.string name) later₁).bind fun _ m₂ trace₂ later₂ _ => ?_
    refine (h a m₂ (chosen a rfl) (trace₂.trans trace₁) later₂).bind fun _ m₃ _ later₃ _ => ?_
    refine (keeps_trace (P := fun _ => True) later₃ trivial).bind fun t m₄ _ later₄ _ => ?_
    exact (keeps_log later₄).bind fun _ m₅ _ later₅ _ => keeps_pure later₅ trivial

theorem keeps_writeNextProperty {name : String} {v : Option Value} {kind : PropertyKind}
    (unshared : s.Unshared) (later : s.Later env.decls m.store)
    (h : below.Keeps env s v (.property kind name :: m.trace) Q) :
    Keeps env.decls s (writeNextProperty env below name v kind) m (fun _ => True) Q := by
  rw [writeNextProperty]
  split
  · exact keeps_failAt
  · refine (keeps_unwrap unshared later).bind fun w m₁ trace₁ later₁ leads => ?_
    refine keeps_writeResolvedProperty later₁ fun a m₂ leads₂ trace₂ later₂ => ?_
    exact h a m₂ (leads a leads₂) (trace₁ ▸ trace₂) later₂

/-- A field of a bean is written from its own value or from a convention, which are parts of the
bean. -/
theorem keeps_writeField {d : Descriptor} {v : Value} (f : Field) (unshared : s.Unshared)
    (later : s.Later env.decls m.store)
    (h : ∀ u, s.Part env.decls v u →
      below.Keeps env s (some u) (.property .field f.name :: m.trace) Q) :
    Keeps env.decls s (writeField env below d v (d.conventionsOf v) f) m (fun _ => True) Q := by
  rw [writeField]
  rcases read : d.read f v with _ | raw
  · exact keeps_throw
  have own := h raw (d.part_of_read read)
  rcases brings : d.conventionsOf v with _ | mapping
  · exact (keeps_writeNextProperty unshared later own).discard
  · refine (keeps_unwrap unshared later).bind fun content m₁ trace₁ later₁ leads => ?_
    rcases content with _ | content
    -- the mapping of the store at hand is the one that the store had at first
    · refine (keeps_get (P := fun m' => m' = m₁) later₁ rfl).bind fun m' m₂ trace₂ later₂ same => ?_
      refine (keeps_writeNextProperty unshared later₂ fun a m₃ leads₃ trace₃ later₃ => ?_).discard
      rw [trace₂, trace₁] at trace₃
      rw [same, later₁.conventionValue] at leads₃
      rcases found : s.conventionValue mapping f.name with _ | u
      · rw [found] at leads₃
        cases leads₃
        exact own .null m₃ (.null _) trace₃ later₃
      · rw [found] at leads₃
        exact h u (d.part_of_conventionsOf brings found) a m₃ leads₃ trace₃ later₃
    · refine (keeps_writeNextProperty unshared later₁ fun a m₃ leads₃ trace₃ later₃ => ?_).discard
      exact own a m₃ (leads a leads₃) (trace₁ ▸ trace₃) later₃

theorem keeps_writeFields {d : Descriptor} {v : Value} {fs : List Field} (unshared : s.Unshared)
    (later : s.Later env.decls m.store)
    (h : ∀ (f : Field) (u : Value), s.Part env.decls v u →
      below.Keeps env s (some u) (.property .field f.name :: m.trace) Q) :
    Keeps env.decls s (writeFields env below d v (d.conventionsOf v) fs) m (fun _ => True) Q := by
  induction fs generalizing m with
  | nil => exact keeps_pure later trivial
  | cons f fs ih =>
    refine (keeps_writeField f unshared later (h f)).bind fun _ m₁ trace₁ later₁ _ => ?_
    exact ih later₁ fun f u part => trace₁ ▸ h f u part

/-- The fields of a bean are written if the limit on nesting allows it. -/
theorem keeps_writeFieldsOf {d : Descriptor} {v : Value} (unshared : s.Unshared)
    (later : s.Later env.decls m.store)
    (h : m.trace.beanDepth < env.settings.maxDepth → ∀ (f : Field) (u : Value),
      s.Part env.decls v u →
      below.Keeps env s (some u) (.property .field f.name :: .bean d.path :: m.trace) Q) :
    Keeps env.decls s (writeFieldsOf env below d v) m (fun _ => True) Q := by
  refine (keeps_trace (P := fun t => t = m.trace) later rfl).bind fun t m₁ trace₁ later₁ same => ?_
  split
  · exact keeps_failAt
  · rename_i within
    rw [same, Nat.not_le] at within
    have fields : Keeps env.decls s (writeFields env below d v (d.conventionsOf v) d.fields)
        (m₁.enter (.bean d.path)) (fun _ => True) Q := by
      refine keeps_writeFields unshared later₁ fun f u part => ?_
      rw [Machine.trace_enter, trace₁]
      exact h within f u part
    exact (fields.bind fun _ m₂ _ later₂ _ => keeps_emit (.string "") later₂).framed

/-! ### Every depth -/

/-- A flat script leaves the trace and the store as they are. -/
theorem meets_run_flat {script : Script} (flat : script.Flat) {t : Trace} {store : Store}
    (trace : m.trace = t) (kept : m.store = store) :
    Meets (run env below script) m
      { done := fun _ m' => m'.trace = t ∧ m'.store = store
        failed := fun _ m' => m'.trace = t ∧ m'.store = store
        aborted := fun reason _ => reason = .panic } := by
  -- over the steps of the script; the body of a frame runs with a longer trace
  induction flat generalizing m t with
  | done => exact ⟨trace, kept⟩
  | fail reason => exact ⟨trace, kept⟩
  | @write p next _ ih =>
    refine meets_bind.2 (meets_outcome.2 (meets_onEncoder.2 ?_))
    rcases Encoder.write p m.encoder with ⟨⟨⟩, encoder⟩ | ⟨source, encoder⟩
    · exact ih _ trace kept
    · exact ih _ trace kept
  | @tree tree next _ ih =>
    refine meets_bind.2 (meets_outcome.2 (meets_onEncoder.2 ?_))
    rcases tree.writeTo m.encoder with ⟨⟨⟩, encoder⟩ | ⟨source, encoder⟩
    · exact ih _ trace kept
    · exact ih _ trace kept
  | @name name next _ ih =>
    refine meets_bind.2 (meets_outcome.2 ((meets_emit (.string name)).2 ?_))
    rcases Encoder.write (.string name) m.encoder with ⟨⟨⟩, encoder⟩ | ⟨source, encoder⟩
    · exact ih _ trace kept
    · exact ih _ trace kept
  | @framed frame body next _ _ body_ih ih =>
    refine meets_bind.2 (meets_outcome.2 (meets_framed.2 ?_))
    have inside := body_ih (m := m.enter frame) (t := frame :: t) (trace ▸ rfl) kept
    refine Meets.imp inside ?_ ?_ fun _ _ => id
    · rintro a m' ⟨trace', kept'⟩
      exact ih (.ok a) (m := m'.leave) (by rw [Machine.trace_leave, trace']; rfl) kept'
    · rintro e m' ⟨trace', kept'⟩
      exact ih (.error e) (m := m'.leave) (by rw [Machine.trace_leave, trace']; rfl) kept'
  | @context next _ ih =>
    exact meets_bind.2 (meets_trace.2 (ih _ _ trace kept))
  | @knows type next _ ih =>
    refine meets_bind.2 ((meets_writer? env type).2 ?_)
    rcases writer : Beans.writer? env.decls type m.beans with ⟨d, beans⟩ | ⟨reason, beans⟩
    · exact ih _ trace kept
    · exact Beans.panic_of_writer? writer

/-- The write of a value by a flat codec. -/
theorem keeps_encode {e : Entry} {v : Value} (flat : (e.codec v).Flat)
    (later : s.Later env.decls m.store) :
    Keeps env.decls s (encode env below e v) m (fun _ => True) Q := by
  rw [encode]
  split
  · refine Meets.imp (meets_run_flat flat rfl rfl) ?_ (fun _ _ _ => trivial) fun _ _ => .inl
    rintro a m' ⟨trace, kept⟩
    exact ⟨trace, kept ▸ later, trivial⟩
  · exact keeps_throw

/-- A pass that runs out of depth has descended as many levels as it was given. -/
theorem keeps_ofDepth (flat : env.codecs.Flat) (unshared : s.Unshared) (depth : Nat)
    {u : Option Value} {a : Action} (leads : s.LeadsTo env u a)
    (later : s.Later env.decls m.store) :
    Keeps env.decls s ((Nested.ofDepth env depth : Nested ω).writeWith a) m (fun _ => True)
      (Descends env s a m.trace depth) := by
  -- one level at a time; only beans and lists hand the rest of the depth on
  induction depth generalizing u a m with
  | zero => exact (meets_abort .overflow).2 (.inr ⟨rfl, .here a m.trace⟩)
  | succ depth ih =>
    refine (keeps_emit _ later).bind fun _ m₁ trace₁ later₁ _ => ?_
    rw [← trace₁]
    cases a with
    | null => exact keeps_pure later₁ trivial
    | codec e v =>
      have written : Keeps env.decls s (encode env (.ofDepth env depth) e v) m₁ (fun _ => True)
          fun _ => False := keeps_encode (flat leads.known v) later₁
      refine meets_bind.2 (meets_outcome.2 (Meets.imp written ?_ ?_ ?_))
      · rintro _ m₂ ⟨trace₂, later₂, -⟩
        exact ⟨trace₂, later₂, trivial⟩
      · rintro reason m₂ -
        dsimp only
        rw [meets_failAt]
        trivial
      · rintro reason m₂ (panic | ⟨-, none⟩)
        · exact .inl panic
        · exact none.elim
    | bean d v =>
      refine (keeps_emit (.string d.path) later₁).bind fun _ m₂ trace₂ later₂ _ => ?_
      rw [← trace₂]
      refine keeps_writeFieldsOf unshared later₂ fun within f u part a m₃ leads₃ trace₃ later₃ => ?_
      refine (ih leads₃ later₃).imp (fun _ => id) fun t' descends => ?_
      exact .field f within part leads₃ (trace₃ ▸ descends)
    | sequence items =>
      refine (keeps_emit (.len items.length) later₁).bind fun _ m₂ trace₂ later₂ _ => ?_
      rw [← trace₂]
      refine keeps_writeElements unshared later₂ fun index v mem a m₃ leads₃ trace₃ later₃ => ?_
      refine (ih leads₃ later₃).imp (fun _ => id) fun t' descends => ?_
      exact .element index mem leads₃ (trace₃ ▸ descends)

end Pass

end BeanStream
