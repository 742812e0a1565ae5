import BeanStream.Proofs.Codec.Relays
import BeanStream.Proofs.Pass.Depth

/-!
# The limit on nesting, and when it is checked

The limit on nested beans is checked before the **properties** of a bean are written, but a nested
bean starts with its tag and its type path. So a pass that fails because beans are nested too
deeply has written the tag and the type path of the bean that was one too many, and nothing more
of it.

To say that, the pass is compared to one that checks the limit **before anything** of a bean is
written (`Nested.limited`). The two do the same, but where the limit is exceeded: there, they fail
alike, and what the pass wrote in addition is exactly the tag and the type path of the bean. The
one exception is a bean whose properties were asked for directly, where there is no tag to write
(`Call.written_of_tooDeep`).
-/

namespace BeanStream

open Wire Pass

variable {ω : Type} [Output ω]

/-- How values are written with `depth` levels to go, if the limit on nesting is checked before
anything of a bean is written. -/
def Nested.limited (env : Env) : (depth : Nat) → Nested ω
  | 0 => { writeWith := fun _ => abort .overflow, encode := fun _ _ => abort .overflow }
  | depth + 1 =>
    { writeWith := fun action => do
        match action with
        | .bean _ _ =>
          if (← Pass.trace (ω := ω)).beanDepth ≥ env.settings.maxDepth then
            failAt (.tooDeep · env.settings.maxDepth)
          else Pass.writeWith env (limited env depth) action
        | _ => Pass.writeWith env (limited env depth) action
      encode := fun e v => Pass.encode env (limited env depth) e v }

/-- What a nested bean starts with: its tag and its type path. -/
def Descriptor.head (d : Descriptor) : List UInt8 :=
  (Primitive.tag (BitVec.ofNat 32 Tag.bean)).encoding ++ (Primitive.string d.path).encoding

/-- A bean does not start with nothing. -/
theorem Descriptor.head_ne_nil (d : Descriptor) : d.head ≠ [] := by
  simp [head, Reading.encoding_tag_ne_nil]

/-- Whether a codec failed because beans are nested too deeply. -/
def CodecError.isTooDeep : CodecError → Bool
  | .nested source => source.isTooDeep
  | _ => false

/-! ### Where the two passes differ -/

/-- One pass failed with `e`, the other one because beans are nested too deeply: with the head of a
bean more in the output, unless the output failed on the way. -/
def Exceeds (e : WriteError) (m : Machine ω) (e' : WriteError) (m' : Machine ω) : Prop :=
  e'.isTooDeep = true ∧
    (e.isTooDeep = false ∨ e = e' ∧ ∃ d : Descriptor, m.written = m'.written ++ d.head)

/-- What may become of the two passes: the same, or the limit is exceeded. -/
inductive Limited {α : Type} : Outcome WriteError α ω → Outcome WriteError α ω → Prop
  | done (a m) : Limited (.ok (.ok a) m) (.ok (.ok a) m)
  | failed {e} (m) : e.isTooDeep = false → Limited (.ok (.error e) m) (.ok (.error e) m)
  | aborted (reason m) : Limited (.error reason m) (.error reason m)
  | exceeds {e m e' m'} : Exceeds e m e' m' → Limited (.ok (.error e) m) (.ok (.error e') m')

/-- What may become of the two passes within a codec. -/
inductive CodecLimited {α : Type} : Outcome CodecError α ω → Outcome CodecError α ω → Prop
  | done (a m) : CodecLimited (.ok (.ok a) m) (.ok (.ok a) m)
  | failed {e} (m) : e.isTooDeep = false → CodecLimited (.ok (.error e) m) (.ok (.error e) m)
  | aborted (reason m) : CodecLimited (.error reason m) (.error reason m)
  | exceeds {e m e' m'} : Exceeds e m e' m' →
      CodecLimited (.ok (.error (.nested e)) m) (.ok (.error (.nested e')) m')

theorem Limited.andThen {α β : Type} {r r' : Outcome WriteError α ω}
    {f g : α → Machine ω → Outcome WriteError β ω} (first : Limited r r')
    (next : ∀ a m, r = .ok (.ok a) m → Limited (f a m) (g a m)) :
    Limited (r.andThen f) (r'.andThen g) := by
  cases first with
  | done a m => exact next a m rfl
  | failed m h => exact .failed m h
  | aborted reason m => exact .aborted reason m
  | exceeds h => exact .exceeds h

theorem Limited.leave {α : Type} {r r' : Outcome WriteError α ω} (h : Limited r r') :
    Limited r.leave r'.leave := by
  cases h with
  | done a m => exact .done a m.leave
  | failed m h => exact .failed m.leave h
  | aborted reason m => exact .aborted reason m
  | exceeds h => exact .exceeds h

theorem CodecLimited.leave {α : Type} {r r' : Outcome CodecError α ω} (h : CodecLimited r r') :
    CodecLimited r.leave r'.leave := by
  cases h with
  | done a m => exact .done a m.leave
  | failed m h => exact .failed m.leave h
  | aborted reason m => exact .aborted reason m
  | exceeds h => exact .exceeds h

/-- A codec that relays the failure of a nested write. -/
theorem Limited.resume {α β : Type} {r r' : Outcome WriteError α ω}
    {f g : Except WriteError α → Machine ω → Outcome CodecError β ω} (first : Limited r r')
    (next : ∀ a m, CodecLimited (f (.ok a) m) (g (.ok a) m))
    (relays : ∀ e m, f (.error e) m = .ok (.error (.nested e)) m)
    (relays' : ∀ e m, g (.error e) m = .ok (.error (.nested e)) m) :
    CodecLimited (r.resume f) (r'.resume g) := by
  cases first with
  | done a m => exact next a m
  | @failed e m h =>
    change CodecLimited (f (.error e) m) (g (.error e) m)
    rw [relays, relays']
    exact .failed m h
  | aborted reason m => exact .aborted reason m
  | @exceeds e m e' m' h =>
    change CodecLimited (f (.error e) m) (g (.error e') m')
    rw [relays, relays']
    exact .exceeds h

/-- A codec that relays the failure of another one. -/
theorem CodecLimited.resume {α β : Type} {r r' : Outcome CodecError α ω}
    {f g : Except CodecError α → Machine ω → Outcome CodecError β ω} (first : CodecLimited r r')
    (next : ∀ a m, CodecLimited (f (.ok a) m) (g (.ok a) m))
    (relays : ∀ e m, f (.error e) m = .ok (.error e) m)
    (relays' : ∀ e m, g (.error e) m = .ok (.error e) m) :
    CodecLimited (r.resume f) (r'.resume g) := by
  cases first with
  | done a m => exact next a m
  | @failed e m h =>
    change CodecLimited (f (.error e) m) (g (.error e) m)
    rw [relays, relays']
    exact .failed m h
  | aborted reason m => exact .aborted reason m
  | @exceeds e m e' m' h =>
    change CodecLimited (f (.error (.nested e)) m) (g (.error (.nested e')) m')
    rw [relays, relays']
    exact .exceeds h

/-- What an operation that makes no nested writes hands to the two passes is the same. -/
private theorem resume_same {ε α β : Type} {r : Outcome ε α ω}
    {f g : Except ε α → Machine ω → Outcome CodecError β ω}
    (next : ∀ answer m, CodecLimited (f answer m) (g answer m)) :
    CodecLimited (r.resume f) (r.resume g) := by
  rcases r with ⟨answer, m⟩ | ⟨reason, m⟩
  · exact next answer m
  · exact .aborted reason m

/-- A pass and one that checks the limit earlier. -/
def limited : Lockstep ω where
  rel := Limited
  done := .done
  failed h m := .failed m h
  aborted := .aborted
  bind := .andThen
  leave := .leave

/-! ### The operations of the two passes -/

/-- The writes of the two levels are those of the two passes. -/
structure Nested.Limited (env : Env) (below below' : Nested ω) : Prop where
  writeWith : ∀ a m, a.Known env →
    BeanStream.Limited ((below.writeWith a).run m) ((below'.writeWith a).run m)
  encode : ∀ {e v}, env.codecs.get? v.typeId = some e → ∀ m,
    CodecLimited ((below.encode e v).run m) ((below'.encode e v).run m)

namespace Pass

variable {env : Env} {below below' : Nested ω}

/-- A script that relays. -/
theorem run_limited (h : below.Limited env below') {s : Script} (relays : s.Relays)
    (m : Machine ω) :
    CodecLimited ((run env below s).run m) ((run env below' s).run m) := by
  have agree (a : Action) (m : Machine ω) (known : a.Known env) :
      limited.Agree (below.writeWith a) (below'.writeWith a) m := h.writeWith a m known
  -- over the steps of the script; where the passes differ, both scripts relay what they are told
  induction relays generalizing m with
  | done => exact .done () m
  | @fail reason own =>
    refine .failed m ?_
    cases reason with
    | nested source => exact absurd rfl (own source)
    | _ => rfl
  | write _ ih | tree _ ih =>
    simp only [run, run_outcome_bind]
    exact resume_same ih
  | @value v next _ relays ih =>
    simp only [run, run_outcome_bind]
    exact Limited.resume (Lockstep.Agree.writeValue agree v) (fun _ => ih)
      (fun e m => by rw [relays e]; rfl) fun e m => by rw [relays e]; rfl
  | @property name v kind next _ relays ih =>
    simp only [run, run_outcome_bind]
    exact Limited.resume (Lockstep.Agree.writeNextProperty agree name v kind) ih
      (fun e m => by rw [relays e]; rfl) fun e m => by rw [relays e]; rfl
  | @name name next _ relays ih =>
    simp only [run, run_outcome_bind]
    exact Limited.resume (limited.agree_emit (.string name)) (fun _ => ih)
      (fun e m => by rw [relays e]; rfl) fun e m => by rw [relays e]; rfl
  | @framed frame body next _ _ relays body_ih ih =>
    simp only [run, run_outcome_bind, run_framed]
    exact (body_ih _).leave.resume (fun _ => ih)
      (fun e m => by rw [relays e]; rfl) fun e m => by rw [relays e]; rfl
  | @reencode v next _ relays ih =>
    rcases found : env.codecs.get? v.typeId with _ | e
    · simp only [run, found]
      exact ih m
    · simp only [run, found, run_outcome_bind]
      exact (h.encode found m).resume (fun _ => ih)
        (fun e m => by rw [relays e]; rfl) fun e m => by rw [relays e]; rfl
  | context _ ih =>
    simp only [run, run_bind]
    exact ih m.trace env.settings m
  | @knows type next _ ih =>
    simp only [run, run_bind, run_lift]
    rcases writer? env type m with ⟨d, m₁⟩ | ⟨reason, m₁⟩
    · exact ih d.isSome m₁
    · exact .aborted reason m₁

theorem encode_limited (h : below.Limited env below') (relays : env.codecs.Relays) {e : Entry}
    {v : Value} (found : env.codecs.get? v.typeId = some e) (m : Machine ω) :
    CodecLimited ((encode env below e v).run m) ((encode env below' e v).run m) := by
  rw [encode, encode]
  split
  · exact run_limited h (relays found v) m
  · exact .failed m rfl

/-- Within the limit, an action is written alike. -/
theorem writeWith_limited (h : below.Limited env below') (relays : env.codecs.Relays) {a : Action}
    {m : Machine ω} (known : a.Known env)
    (within : ∀ d v, a = .bean d v → m.trace.beanDepth < env.settings.maxDepth) :
    Limited ((writeWith env below a).run m) ((writeWith env below' a).run m) := by
  have agree (a : Action) (m : Machine ω) (known : a.Known env) :
      limited.Agree (below.writeWith a) (below'.writeWith a) m := h.writeWith a m known
  have kept {p : Primitive} {m₁ m₂ : Machine ω} (done : (emit p).run m₁ = .ok (.ok ()) m₂) :
      m₂.trace = m₁.trace := by
    have spec := meets_emit (m := m₁) (E := ⟨fun _ m' => m'.trace = m₁.trace, fun _ _ => True,
      fun _ _ => True⟩) p
    refine (spec.2 ?_).done done
    rcases Encoder.write p m₁.encoder with ⟨⟨⟩, encoder⟩ | ⟨source, encoder⟩
    · rfl
    · trivial
  refine Lockstep.Agree.bind (L := limited) (limited.agree_emit _) fun _ m₁ tag => ?_
  cases a with
  | null => exact limited.agree_pure ()
  | codec e v =>
    unfold Lockstep.Agree
    simp only [writePayload, run_outcome_bind]
    have outcome := encode_limited h relays known m₁
    generalize (encode env below e v).run m₁ = r at outcome
    generalize (encode env below' e v).run m₁ = r' at outcome
    cases outcome with
    | done a m₂ => exact .done () m₂
    | @failed reason m₂ plain =>
      refine .failed m₂ ?_
      cases reason with
      | nested source => exact plain
      | _ => rfl
    | aborted reason m₂ => exact .aborted reason m₂
    | exceeds beyond => exact .exceeds beyond
  | bean d v =>
    refine Lockstep.Agree.bind (limited.agree_emit _) fun _ m₂ path => ?_
    -- the limit is not exceeded here either: the tag and the path leave the trace alone
    refine Lockstep.Agree.writeFieldsOf agree d v fun deep => ?_
    have small := within d v rfl
    rw [kept path, kept tag] at deep
    omega
  | sequence items =>
    exact Lockstep.Agree.bind (limited.agree_emit _) fun _ m₂ _ =>
      Lockstep.Agree.writeElements agree 0 items

/-- Beyond the limit, the properties of a bean are not begun. -/
theorem writeFieldsOf_beyond (d : Descriptor) (v : Value) {m : Machine ω}
    (beyond : env.settings.maxDepth ≤ m.trace.beanDepth) :
    (writeFieldsOf env below d v).run m =
      .ok (.error (.tooDeep m.trace env.settings.maxDepth)) m := by
  simp only [writeFieldsOf, run_bind, run_trace, Outcome.andThen, ge_iff_le, beyond, if_true]
  rfl

/-- Beyond the limit, the head of a bean is written, unless the output fails. -/
theorem exceeds_of_writeWith (d : Descriptor) (v : Value) {m : Machine ω}
    (beyond : env.settings.maxDepth ≤ m.trace.beanDepth) :
    ∃ e m', (writeWith env below (.bean d v)).run m = .ok (.error e) m' ∧
      Exceeds e m' (.tooDeep m.trace env.settings.maxDepth) m := by
  have fails : Meets (writeWith env below (.bean d v)) m
      ⟨fun _ _ => False,
        fun e m' => Exceeds e m' (.tooDeep m.trace env.settings.maxDepth) m,
        fun _ _ => False⟩ := by
    -- the output may fail at the tag or at the path; if it does not, the head is complete
    refine meets_bind.2 ((meets_emit _).2 ?_)
    rcases tag : Encoder.write (.tag (BitVec.ofNat 32 (Action.bean d v).tag)) m.encoder with
      ⟨⟨⟩, encoder⟩ | ⟨source, encoder⟩
    · refine meets_bind.2 ((meets_emit _).2 ?_)
      rcases path : Encoder.write (.string d.path) encoder with ⟨⟨⟩, encoder'⟩ | ⟨source, encoder'⟩
      · have written : Output.written encoder' = Output.written m.encoder ++ d.head := by
          rw [Encoder.write_ok path, Encoder.write_ok tag, List.append_assoc, Descriptor.head]
          rfl
        change Meets (writeFieldsOf env below d v) { m with encoder := encoder' } _
        rw [Meets, writeFieldsOf_beyond (m := { m with encoder := encoder' }) d v beyond]
        exact ⟨rfl, .inr ⟨rfl, d, written⟩⟩
      · exact ⟨rfl, .inl rfl⟩
    · exact ⟨rfl, .inl rfl⟩
  rcases run : (writeWith env below (.bean d v)).run m with ⟨e | a, m'⟩ | ⟨reason, m'⟩
  · exact ⟨e, m', rfl, fails.failed run⟩
  · exact (fails.done run).elim
  · exact (fails.aborted run).elim

private theorem run_limited_bean (env : Env) (depth : Nat) (d : Descriptor) (v : Value)
    (m : Machine ω) :
    ((Nested.limited env (depth + 1)).writeWith (.bean d v)).run m =
      if env.settings.maxDepth ≤ m.trace.beanDepth then
        .ok (.error (.tooDeep m.trace env.settings.maxDepth)) m
      else (writeWith env (.limited env depth) (.bean d v)).run m := by
  simp only [Nested.limited, run_bind, run_trace, Outcome.andThen, ge_iff_le]
  split
  · rfl
  · rfl

/-- The two passes, at every depth. -/
theorem ofDepth_limited (relays : env.codecs.Relays) (depth : Nat) :
    (Nested.ofDepth env depth : Nested ω).Limited env (.limited env depth) := by
  induction depth with
  | zero => exact ⟨fun _ m _ => .aborted .overflow m, fun _ m => .aborted .overflow m⟩
  | succ depth ih =>
    refine ⟨fun a m known => ?_, encode_limited ih relays⟩
    cases a with
    | bean d v =>
      rw [run_limited_bean]
      split
      · rename_i beyond
        change Limited ((writeWith env (.ofDepth env depth) (.bean d v)).run m) _
        obtain ⟨e, m', run, exceeds⟩ :
            ∃ e m', (writeWith env (.ofDepth env depth) (.bean d v)).run m = .ok (.error e) m' ∧
              Exceeds e m' (.tooDeep m.trace env.settings.maxDepth) m :=
          exceeds_of_writeWith d v beyond
        rw [run]
        exact .exceeds exceeds
      · rename_i within
        exact writeWith_limited ih relays known fun _ _ _ => Nat.lt_of_not_le within
    | null => exact writeWith_limited ih relays known nofun
    | codec e v => exact writeWith_limited ih relays known nofun
    | sequence items => exact writeWith_limited ih relays known nofun

/-- Beyond the limit, a call for the properties of a bean makes no nested writes. -/
theorem writeBean_beyond {v : Value} {m : Machine ω}
    (beyond : env.settings.maxDepth ≤ m.trace.beanDepth) :
    (writeBean env below v).run m = (writeBean env below' v).run m := by
  rw [writeBean, writeBean, run_bind, run_bind]
  refine Outcome.andThen_congr fun d m₁ found => ?_
  obtain ⟨beans, rfl⟩ := beans_of_writer? found
  rcases d with _ | d
  · rfl
  · have beyond' : env.settings.maxDepth ≤ ({ m with beans } : Machine ω).trace.beanDepth := beyond
    exact (writeFieldsOf_beyond d v beyond').trans (writeFieldsOf_beyond d v beyond').symm

end Pass

/-- A call for the properties of a bean that is one too many. -/
def Call.Beyond (env : Env) (m : Machine ω) : Call → Prop
  | .bean _ => env.settings.maxDepth ≤ m.trace.beanDepth
  | _ => False

/-- A call that fails because beans are nested too deeply fails alike if the limit is checked
before anything of a bean is written. What it wrote in addition is the head of the bean that was
one too many, unless it was called for the properties of that bean itself: **then, and only then**,
nothing of the bean was written. -/
theorem Call.written_of_tooDeep {env : Env} (relays : env.codecs.Relays) {c : Call} {depth : Nat}
    {m m' : Machine ω} {trace : Trace} {maxDepth : Nat}
    (h : (c.run env (.ofDepth env depth)).run m = .ok (.error (.tooDeep trace maxDepth)) m') :
    ∃ checked, (c.run env (.limited env depth)).run m =
        .ok (.error (.tooDeep trace maxDepth)) checked ∧
      (m'.written = checked.written ↔ c.Beyond env m) ∧
      (¬ c.Beyond env m → ∃ d : Descriptor, m'.written = checked.written ++ d.head) := by
  have agree (a : Action) (m : Machine ω) (known : a.Known env) :
      limited.Agree ((Nested.ofDepth env depth).writeWith a)
        ((Nested.limited env depth).writeWith a) m :=
    (ofDepth_limited relays depth).writeWith a m known
  by_cases beyond : c.Beyond env m
  -- asked for the properties of a bean that is one too many, neither pass writes anything
  · cases c with
    | bean v =>
      refine ⟨m', ?_, by simp [beyond], fun within => absurd beyond within⟩
      exact (writeBean_beyond beyond).symm.trans h
    | value v => exact beyond.elim
    | property name v kind => exact beyond.elim
  · have related : Limited ((c.run env (.ofDepth env depth)).run m)
        ((c.run env (.limited env depth)).run m) := by
      cases c with
      | value v => exact Lockstep.Agree.writeValue agree v
      | property name v kind => exact Lockstep.Agree.writeNextProperty agree name v kind
      | bean v => exact Lockstep.Agree.writeBean agree v fun _ deep => absurd deep beyond
    -- a failure for too deep a nesting is not one of those that both passes share
    rw [h] at related
    generalize (c.run env (.limited env depth)).run m = r at related
    cases related with
    | failed _ plain => cases plain
    | exceeds exceeds =>
      obtain ⟨-, plain | ⟨rfl, d, written⟩⟩ := exceeds
      · cases plain
      · refine ⟨_, rfl, ?_, fun _ => ⟨d, written⟩⟩
        simp [written, beyond, d.head_ne_nil]

/-- Whether a call fails because beans are nested too deeply, with these bytes in the output. -/
private def failsBeyond {α : Type} (bs : List UInt8) : Outcome WriteError α ω → Bool
  | .ok (.error (.tooDeep _ _)) m => m.written = bs
  | _ => false

private theorem exists_of_failsBeyond {α : Type} {bs : List UInt8} {r : Outcome WriteError α ω}
    (h : failsBeyond bs r = true) :
    ∃ trace maxDepth m, r = .ok (.error (.tooDeep trace maxDepth)) m ∧ m.written = bs := by
  rcases r with ⟨e | a, m⟩ | ⟨reason, m⟩
  · cases e with
    | tooDeep trace maxDepth => exact ⟨trace, maxDepth, m, rfl, of_decide_eq_true h⟩
    | _ => cases h
  · cases h
  · cases h

/-- A chain of two links, where one is allowed: the second one has left its head. -/
theorem Call.written_of_tooDeep_link :
    let env := { Link.env with settings := { maxDepth := 1 } }
    let c := Call.value (some (Link.link (some (Link.link none [98])) [97]))
    ∃ trace maxDepth m' checked d,
      (c.run env (.ofDepth env 3)).run Link.machine = .ok (.error (.tooDeep trace maxDepth)) m' ∧
      (c.run env (.limited env 3)).run Link.machine =
        .ok (.error (.tooDeep trace maxDepth)) checked ∧
      m'.written = checked.written ++ Descriptor.head d := by
  intro env c
  have beyond : failsBeyond [1, 10, 100, 101, 109, 111, 58, 58, 76, 105, 110, 107, 4, 110, 101, 120,
      116, 1, 10, 100, 101, 109, 111, 58, 58, 76, 105, 110, 107]
      ((c.run env (.ofDepth env 3)).run Link.machine) = true := by decide +kernel
  obtain ⟨trace, maxDepth, m', fails, -⟩ := exists_of_failsBeyond beyond
  obtain ⟨checked, alike, -, more⟩ := Call.written_of_tooDeep CodecRegistry.relays_builtin fails
  obtain ⟨d, written⟩ := more id
  exact ⟨trace, maxDepth, m', checked, d, fails, alike, written⟩

/-- Where no bean is allowed, the outermost one leaves its tag and its type path in an output that
was empty before. -/
theorem Call.head_before_tooDeep :
    let env := { Link.env with settings := { maxDepth := 0 } }
    ∃ trace maxDepth m',
      ((Call.value (some (Link.link none [97]))).run env (.ofDepth env 3)).run Link.machine =
        .ok (.error (.tooDeep trace maxDepth)) m' ∧
      m'.written = [1, 10, 100, 101, 109, 111, 58, 58, 76, 105, 110, 107] :=
  exists_of_failsBeyond (by decide +kernel)

end BeanStream
