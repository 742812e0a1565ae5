import BeanStream.Proofs.Pass.Resolution

/-!
# What the operations of a pass add to the output

`Adds x m R S`: run on the machine `m`, the computation `x` adds bytes to the output and takes none
away; if it ends in a value, these bytes, the value and what is remembered satisfy `R`, and if it
fails, the bytes satisfy `S`.

With the codecs of the library, an operation that succeeds adds the **complete form** of what its
argument resolves to, and an operation that fails adds a form that **ends too soon**, or right where
the complete one does: the output may fail at the last item although it took all of its bytes. That
is shown for every operation of a pass in turn, over every output, given that it holds of the writes
one level below (`Nested.Sound`), and then for every depth (`sound_ofDepth`).
-/

namespace BeanStream

open Wire Reading

namespace Pass

variable {ω ε δ α β : Type} [Output ω] {m : Machine ω}

/-- What is added to the output, whatever becomes of a computation. -/
def Adds (x : AttemptTo ω ε α) (m : Machine ω) (R : α → List UInt8 → Memory → Prop)
    (S : List UInt8 → Prop) : Prop :=
  Meets x m
    { done := fun a m' => ∃ bs, m'.written = m.written ++ bs ∧ R a bs m'.memory
      failed := fun _ m' => ∃ bs, m'.written = m.written ++ bs ∧ S bs
      aborted := fun _ _ => True }

variable {R : α → List UInt8 → Memory → Prop} {S : List UInt8 → Prop}

theorem Adds.imp {x : AttemptTo ω ε α} {R' : α → List UInt8 → Memory → Prop}
    {S' : List UInt8 → Prop} (h : Adds x m R S) (done : ∀ a bs c, R a bs c → R' a bs c)
    (failed : ∀ bs, S bs → S' bs) :
    Adds x m R' S' := by
  refine Meets.imp h ?_ ?_ fun _ _ => id
  · rintro a m' ⟨bs, written, hR⟩
    exact ⟨bs, written, done a bs _ hR⟩
  · rintro e m' ⟨bs, written, hS⟩
    exact ⟨bs, written, failed bs hS⟩

/-- What is added by one computation after another. -/
theorem Adds.bind {x : AttemptTo ω ε α} {f : α → AttemptTo ω ε β}
    {R' : β → List UInt8 → Memory → Prop} (first : Adds x m R S)
    (next : ∀ a bs m', R a bs m'.memory →
      Adds (f a) m' (fun b cs => R' b (bs ++ cs)) fun cs => S (bs ++ cs)) :
    Adds (x >>= f) m R' S := by
  refine meets_bind.2 (Meets.imp first ?_ (fun _ _ => id) fun _ _ => id)
  rintro a m' ⟨bs, front, hR⟩
  refine Meets.imp (next a bs m' hR) ?_ ?_ fun _ _ => id
  · rintro b m'' ⟨cs, back, hR'⟩
    exact ⟨bs ++ cs, by rw [back, front, List.append_assoc], hR'⟩
  · rintro e m'' ⟨cs, back, hS⟩
    exact ⟨bs ++ cs, by rw [back, front, List.append_assoc], hS⟩

theorem adds_pure {a : α} (h : R a [] m.memory) : Adds (pure a : AttemptTo ω ε α) m R S :=
  (meets_pure a).2 ⟨[], (List.append_nil _).symm, h⟩

theorem adds_throw {e : ε} (h : S []) : Adds (throw e : AttemptTo ω ε α) m R S :=
  (meets_throw e).2 ⟨[], (List.append_nil _).symm, h⟩

theorem adds_failAt {reason : Trace → ε} (h : S []) :
    Adds (failAt reason : AttemptTo ω ε α) m R S :=
  (meets_failAt reason).2 ⟨[], (List.append_nil _).symm, h⟩

theorem adds_abort {reason : Abort} : Adds (abort reason : AttemptTo ω ε α) m R S := trivial

/-- A frame adds nothing. -/
theorem Adds.framed {x : AttemptTo ω ε α} {f : Frame} (h : Adds x (m.enter f) R S) :
    Adds (framed f x) m R S :=
  meets_framed.2 (Meets.imp h (fun _ _ => id) (fun _ _ => id) fun _ _ => id)

theorem Adds.discard {x : AttemptTo ω ε α} {R' : Unit → List UInt8 → Memory → Prop}
    (h : Adds x m (fun _ => R' ()) S) : Adds (discard x) m R' S :=
  meets_discard.2 (Meets.imp h (fun _ _ => id) (fun _ _ => id) fun _ _ => id)

/-- What is said of an answer, said of the outcome that has it, and of one that has none. -/
def byOutcome (R : α → List UInt8 → Memory → Prop) (S : List UInt8 → Prop) :
    Except δ α → List UInt8 → Memory → Prop
  | .ok a, bs, c => R a bs c
  | .error _, bs, _ => S bs

/-- Where the outcome is asked for, what a failure added is there all the same. -/
theorem Adds.outcome {x : AttemptTo ω δ α} {R : α → List UInt8 → Memory → Prop}
    {S S' : List UInt8 → Prop} (h : Adds x m R S) :
    Adds (outcome x : AttemptTo ω ε (Except δ α)) m (byOutcome R S) S' :=
  meets_outcome.2 (Meets.imp h (fun _ _ => id) (fun _ _ => id) fun _ _ => id)

theorem adds_trace {R : Trace → List UInt8 → Memory → Prop} (h : R m.trace [] m.memory) :
    Adds (ε := ε) (liftM Pass.trace) m R S :=
  meets_trace.2 ⟨[], (List.append_nil _).symm, h⟩

theorem adds_log {R : Unit → List UInt8 → Memory → Prop} {line : LogLine}
    (h : R () [] m.memory) : Adds (ε := ε) (liftM (log line)) m R S :=
  (meets_log line).2 ⟨[], (List.append_nil _).symm, h⟩

theorem adds_get {R : Machine ω → List UInt8 → Memory → Prop} (h : R m [] m.memory) :
    Adds (ε := ε) (getThe (Machine ω)) m R S :=
  meets_get.2 ⟨[], (List.append_nil _).symm, h⟩

/-- All of an item, or a part of it. -/
theorem adds_onEncoder {R : Unit → List UInt8 → Memory → Prop} {p : Primitive}
    (done : R () p.encoding m.memory) (failed : ∀ bs, bs <+: p.encoding → S bs) :
    Adds (onEncoder (Encoder.write p)) m R S := by
  refine meets_onEncoder.2 ?_
  rcases h : Encoder.write p m.encoder with ⟨⟨⟩, encoder⟩ | ⟨source, encoder⟩
  · exact ⟨p.encoding, Encoder.write_ok h, done⟩
  · obtain ⟨part, front, written⟩ := Encoder.write_error h
    exact ⟨part, written, failed part front⟩

/-- All of an item, or a part of it. -/
theorem adds_emit {R : Unit → List UInt8 → Memory → Prop} {p : Primitive}
    (done : R () p.encoding m.memory) (failed : ∀ bs, bs <+: p.encoding → S bs) :
    Adds (emit p) m R S := by
  refine (meets_emit p).2 ?_
  rcases h : Encoder.write p m.encoder with ⟨⟨⟩, encoder⟩ | ⟨source, encoder⟩
  · exact ⟨p.encoding, Encoder.write_ok h, done⟩
  · obtain ⟨part, front, written⟩ := Encoder.write_error h
    exact ⟨part, written, failed part front⟩

/-- Unwrapping adds nothing. -/
theorem adds_unwrap {R : Option Value → List UInt8 → Memory → Prop} {env : Env}
    {frame : List Frame} {v : Option Value} (done : ∀ w c, m.memory.Unwraps env v w c → R w [] c)
    (failed : S []) : Adds (unwrap env frame v) m R S := by
  refine (meets_unwrap env frame v).2 ?_
  rcases h : (Value.unwrap env.decls v).run m.store with ⟨source | w, store⟩ | ⟨reason, store⟩
  · exact ⟨[], (List.append_nil _).symm, failed⟩
  · exact ⟨[], (List.append_nil _).symm, done w _ ⟨h, rfl⟩⟩
  · trivial

/-- Looking for a way to write a value adds nothing. -/
theorem adds_actionFor {R : Option Action → List UInt8 → Memory → Prop} {env : Env}
    {v : Option Value} (done : ∀ a c, m.memory.Chooses env v a c → R a [] c) :
    Adds (ε := ε) (liftM (actionFor env v)) m R S := by
  refine meets_lift.2 ?_
  have spec := actionFor_spec env v m
  rcases h : actionFor env v m with ⟨a, m'⟩ | ⟨reason, m'⟩ <;> rw [h] at spec
  · obtain ⟨chooses, changes⟩ := spec
    refine ⟨[], ?_, done a _ chooses⟩
    rw [changes, List.append_nil]
    rfl
  · trivial

/-- Asking for the writer of a type adds nothing. -/
theorem adds_writer? {R : Option Descriptor → List UInt8 → Memory → Prop} {env : Env}
    {type : TypeId}
    (done : ∀ d beans, Beans.writer? env.decls type m.beans = .ok d beans →
      R d [] { m.memory with beans }) :
    Adds (ε := ε) (liftM (writer? env type)) m R S := by
  refine (meets_writer? env type).2 ?_
  rcases h : Beans.writer? env.decls type m.beans with ⟨d, beans⟩ | ⟨reason, beans⟩
  · exact ⟨[], (List.append_nil _).symm, done d beans h⟩
  · trivial

end Pass

/-! ### Operations, given the writes one level below -/

/-- What is added by a write one level below: the form of what the action stands for, or a form
that ends too soon. -/
def Nested.Sound {ω : Type} [Output ω] (env : Env) (below : Nested ω) : Prop :=
  ∀ a (m : Machine ω), a.Known env →
    Pass.Adds (below.writeWith a) m
      (fun _ bs c => ∃ n, IsNode layouts bs n ∧ Resolves env m.memory a n c) (EndsInNode layouts)

/-- What a property with the unwrapped value `w` stands for: nothing, where there is no way to
write the value. -/
def PropertyResolves (env : Env) (name : String) (c : Memory) (w : Option Value)
    (ps : List (String × Node)) (c' : Memory) : Prop :=
  ∃ a c₁, c.Chooses env w a c₁ ∧
    match a with
    | none => ps = [] ∧ c' = c₁
    | some a => ∃ n, ps = [(name, n)] ∧ Resolves env c₁ a n c'

namespace Pass

variable {ω : Type} [Output ω] {env : Env} {below : Nested ω} {m : Machine ω}

/-- A value with its tag. -/
theorem adds_writeValue (sound : below.Sound env) (v : Option Value) :
    Adds (writeValue env below v) m
      (fun _ bs c => ∃ w c₁ a c₂ n, m.memory.Unwraps env v w c₁ ∧ c₁.Chooses env w (some a) c₂ ∧
        IsNode layouts bs n ∧ Resolves env c₂ a n c)
      (EndsInNode layouts) := by
  refine Adds.bind (adds_unwrap (R := fun w bs c => bs = [] ∧ m.memory.Unwraps env v w c)
    (fun w c unwraps => ⟨rfl, unwraps⟩) endsInNode_nil) ?_
  rintro w _ m₁ ⟨rfl, unwraps⟩
  refine Adds.bind (adds_actionFor (R := fun a bs c => bs = [] ∧ m₁.memory.Chooses env w a c)
    fun a c chooses => ⟨rfl, chooses⟩) ?_
  rintro a _ m₂ ⟨rfl, chooses⟩
  rcases a with _ | a
  · exact adds_failAt endsInNode_nil
  · refine (sound a m₂ chooses.known).imp ?_ fun _ => id
    rintro _ bs c ⟨n, isNode, resolves⟩
    exact ⟨w, m₁.memory, a, m₂.memory, n, unwraps, chooses, isNode, resolves⟩

/-- Elements in a row. -/
theorem adds_writeElements (sound : below.Sound env) (index : Nat) (vs : List Value) :
    Adds (writeElements env below index vs) m
      (fun _ bs c => ∃ ns, ns.length = vs.length ∧ IsRow layouts bs ns ∧
        RowResolves env m.memory vs ns c)
      (EndsInRow layouts vs.length) := by
  induction vs generalizing index m with
  | nil => exact adds_pure ⟨[], rfl, isRow_nil, .nil _⟩
  | cons v vs ih =>
    refine Adds.bind ((adds_writeValue sound (some v)).framed.imp (fun _ _ _ => id)
      fun _ => endsInRow_first) ?_
    rintro _ front m₁ ⟨w, c₁, a, c₂, n, unwraps, chooses, isNode, resolves⟩
    refine (ih (m := m₁) (index + 1)).imp ?_ fun bs => .cons isNode
    rintro _ bs c ⟨ns, length, isRow, others⟩
    exact ⟨n :: ns, congrArg (· + 1) length, isRow.cons isNode,
      .cons unwraps chooses resolves others⟩

/-- A property whose value is not deferred: name and value, or nothing. -/
theorem adds_writeResolvedProperty (sound : below.Sound env) (kind : PropertyKind) {name : String}
    (hname : name ≠ "") (w : Option Value) :
    Adds (writeResolvedProperty env below kind name w) m
      (fun _ bs c => ∃ ps, IsRecords layouts bs ps ∧ PropertyResolves env name m.memory w ps c)
      (EndsInStream layouts) := by
  refine Adds.framed (Adds.bind
    (adds_actionFor (R := fun a bs c => bs = [] ∧ m.memory.Chooses env w a c)
      fun a c chooses => ⟨rfl, chooses⟩) ?_)
  rintro a _ m₁ ⟨rfl, chooses⟩
  rcases a with _ | a
  · have omitted : PropertyResolves env name m.memory w [] m₁.memory :=
      ⟨none, _, chooses, rfl, rfl⟩
    simp only [omitProperty]
    split
    · refine Adds.bind (adds_trace (R := fun _ bs c => bs = [] ∧ c = m₁.memory) ⟨rfl, rfl⟩) ?_
      rintro _ _ m₂ ⟨rfl, same⟩
      refine Adds.bind (adds_log (R := fun _ bs c => bs = [] ∧ c = m₁.memory) ⟨rfl, same⟩) ?_
      rintro _ _ m₃ ⟨rfl, same⟩
      exact adds_pure ⟨[], isRecords_nil, same ▸ omitted⟩
    · exact adds_failAt endsInStream_nil
  -- from the name on, a failure leaves a property that ends too soon
  · refine Adds.bind (adds_emit
      (R := fun _ bs c => bs = (Primitive.string name).encoding ∧ c = m₁.memory) ⟨rfl, rfl⟩
      fun bs => endsInStream_name hname) ?_
    rintro _ _ m₂ ⟨rfl, same⟩
    refine Adds.bind ((sound a m₂ chooses.known).imp (fun _ _ _ => id)
      fun bs => endsInStream_value hname) ?_
    rintro _ bs m₃ ⟨n, isNode, resolves⟩
    -- what follows is for the log only
    refine Adds.bind (adds_trace (R := fun _ bs c => bs = [] ∧ c = m₃.memory) ⟨rfl, rfl⟩) ?_
    rintro _ _ m₄ ⟨rfl, kept⟩
    refine Adds.bind (adds_log (R := fun _ bs c => bs = [] ∧ c = m₃.memory) ⟨rfl, kept⟩) ?_
    rintro _ _ m₅ ⟨rfl, kept⟩
    refine adds_pure ⟨[(name, n)], ?_, some a, m₁.memory, chooses, n, rfl, ?_⟩
    · simpa only [List.nil_append, List.append_nil] using isRecords_property hname isNode
    · rw [kept, ← same]
      exact resolves

/-- A property: name and value, or nothing. -/
theorem adds_writeNextProperty (sound : below.Sound env) (name : String) (v : Option Value)
    (kind : PropertyKind) :
    Adds (writeNextProperty env below name v kind) m
      (fun _ bs c => ∃ w c₁ ps, m.memory.Unwraps env v w c₁ ∧ IsRecords layouts bs ps ∧
        PropertyResolves env name c₁ w ps c)
      (EndsInStream layouts) := by
  rw [writeNextProperty]
  split
  · exact adds_failAt endsInStream_nil
  · rename_i hname
    refine Adds.bind (adds_unwrap (R := fun w bs c => bs = [] ∧ m.memory.Unwraps env v w c)
      (fun w c unwraps => ⟨rfl, unwraps⟩) endsInStream_nil) ?_
    rintro w _ m₁ ⟨rfl, unwraps⟩
    refine (adds_writeResolvedProperty sound kind hname w).imp ?_ fun _ => id
    rintro _ bs c ⟨ps, isRecords, resolves⟩
    exact ⟨w, m₁.memory, ps, unwraps, isRecords, resolves⟩

/-- A field: name and value, or nothing. -/
theorem adds_writeField (sound : below.Sound env) (d : Descriptor) (v : Value) (f : Field) :
    Adds (writeField env below d v (d.conventionsOf v) f) m
      (fun _ bs c => ∃ w c₁ ps, m.memory.Effective env d v f w c₁ ∧ IsRecords layouts bs ps ∧
        PropertyResolves env f.name c₁ w ps c)
      (EndsInStream layouts) := by
  rw [writeField]
  rcases read : d.read f v with _ | raw
  · exact adds_throw endsInStream_nil
  rcases brings : d.conventionsOf v with _ | mapping
  · refine Adds.discard ((adds_writeNextProperty sound f.name (some raw) .field).imp ?_
      fun _ => id)
    rintro _ bs c ⟨w, c₁, ps, unwraps, isRecords, resolves⟩
    refine ⟨w, c₁, ps, ?_, isRecords, resolves⟩
    rcases w with _ | content
    · exact .absent read unwraps brings
    · exact .own read unwraps
  · refine Adds.bind (adds_unwrap
      (R := fun own bs c => bs = [] ∧ m.memory.Unwraps env (some raw) own c)
      (fun own c unwraps => ⟨rfl, unwraps⟩) endsInStream_nil) ?_
    rintro own _ m₁ ⟨rfl, unwraps⟩
    rcases own with _ | content
    -- an absent value makes room for the convention
    · refine Adds.bind (adds_get (R := fun m₂ bs c => bs = [] ∧ m₂ = m₁ ∧ c = m₁.memory)
        ⟨rfl, rfl, rfl⟩) ?_
      rintro _ _ m₂ ⟨rfl, rfl, same⟩
      refine Adds.discard ((adds_writeNextProperty sound f.name _ .field).imp ?_ fun _ => id)
      rintro _ bs c ⟨w, c₁, ps, convention, isRecords, resolves⟩
      rw [same] at convention
      exact ⟨w, c₁, ps, .convention read unwraps brings convention, isRecords, resolves⟩
    · refine Adds.discard ((adds_writeNextProperty sound f.name (some content) .field).imp ?_
        fun _ => id)
      rintro _ bs c ⟨w, c₁, ps, again, isRecords, resolves⟩
      -- the content is unwrapped a second time, which does nothing
      obtain ⟨rfl, rfl⟩ := again.unique (Memory.unwraps_self unwraps.plain)
      exact ⟨some content, m₁.memory, ps, .own read unwraps, isRecords, resolves⟩

/-- Fields in order. -/
theorem adds_writeFields (sound : below.Sound env) (d : Descriptor) (v : Value) (fs : List Field) :
    Adds (writeFields env below d v (d.conventionsOf v) fs) m
      (fun _ bs c => ∃ ps, IsRecords layouts bs ps ∧ FieldsResolve env d v fs m.memory ps c)
      (EndsInStream layouts) := by
  induction fs generalizing m with
  | nil => exact adds_pure ⟨[], isRecords_nil, .nil d v _⟩
  | cons f fs ih =>
    -- in front of what follows, the first field may have no form at all
    refine Adds.bind (adds_writeField sound d v f) ?_
    rintro _ front m₁ ⟨w, c₁, ps, effective, first, a, c₂, chooses, resolves⟩
    refine (ih (m := m₁)).imp ?_ fun _ => first.incomplete
    rintro _ bs c ⟨qs, others, fields⟩
    refine ⟨ps ++ qs, first.append others, ?_⟩
    rcases a with _ | a
    · obtain ⟨rfl, rfl⟩ := resolves
      exact .omitted effective chooses fields
    · obtain ⟨n, rfl, resolves⟩ := resolves
      exact .written effective chooses resolves fields

/-- The properties of an instance of a bean, and the empty name. -/
theorem adds_writeFieldsOf (sound : below.Sound env) (d : Descriptor) (v : Value) :
    Adds (writeFieldsOf env below d v) m
      (fun _ bs c => ∃ ps, IsStream layouts bs ps ∧ FieldsResolve env d v d.fields m.memory ps c)
      fun bs => EndsInStream layouts bs ∨ ∃ ps, IsStream layouts bs ps := by
  rw [writeFieldsOf]
  refine Adds.bind (adds_trace (R := fun _ bs c => bs = [] ∧ c = m.memory) ⟨rfl, rfl⟩) ?_
  rintro trace _ m₁ ⟨rfl, same⟩
  rw [← same]
  split
  · exact adds_failAt (.inl endsInStream_nil)
  · refine Adds.framed (Adds.bind ((adds_writeFields sound d v d.fields).imp (fun _ _ _ => id)
      fun _ => .inl) ?_)
    rintro _ front m₂ ⟨ps, isRecords, fields⟩
    refine adds_emit ⟨ps, isRecords.isStream, fields⟩ fun bs part => ?_
    rcases endsInStream_or_isStream part with short | rfl
    · exact .inl (isRecords.incomplete short)
    · exact .inr ⟨ps, isRecords.isStream⟩

/-! ### Codecs of the library -/

private theorem adds_run_script {s : Scalar} :
    Adds (run env below s.script) m
      (fun _ bs c => Reads (scalar s.type) bs s ∧ c = m.memory)
      fun bs => Starves (scalar s.type) bs ∨ ∃ s', Reads (scalar s.type) bs s' := by
  rcases s.script_cases with ⟨script, reads⟩ | ⟨p, script, reads⟩ | ⟨bs, script⟩ <;>
    rw [script]
  · exact adds_pure ⟨reads, rfl⟩
  · refine Adds.bind (Adds.outcome (adds_onEncoder
      (R := fun _ bs c => bs = p.encoding ∧ c = m.memory) ⟨rfl, rfl⟩ fun bs front => front)) ?_
    rintro (source | ⟨⟩) bs m₁ h
    · refine adds_throw ?_
      rw [List.append_nil]
      rcases eq_or_cut h with rfl | cut
      · exact .inr ⟨s, reads⟩
      · exact .inl ((steady_scalar s.type).starves_of_reads reads cut)
    · obtain ⟨rfl, same⟩ := h
      exact adds_pure ⟨(List.append_nil p.encoding).symm ▸ reads, same⟩
  · exact adds_throw (scalar_nil s.type)

/-- A value written by its codec: the layout of its type. -/
theorem adds_encode {e : Entry} {t : ScalarType} (type : e.type = .scalar t)
    (codec : e.codec = Value.scalarScript t) (v : Value) :
    Adds (encode env below e v) m
      (fun _ bs c => ∃ s, v = .scalar s ∧ Reads (scalar t) bs s ∧ c = m.memory)
      fun bs => Starves (scalar t) bs ∨ ∃ s, Reads (scalar t) bs s := by
  rw [encode]
  split
  · rename_i same
    rw [codec]
    rcases v with s | _ | _ | _ | _ | _ | _ | _ | _ | _ | _ | _ | _
    · have ht : s.type = t := TypeId.scalar.inj (same.trans type)
      rw [← ht]
      exact adds_run_script.imp (fun _ bs c h => ⟨s, rfl, h⟩) fun _ => id
    -- only scalars are written
    all_goals exact adds_throw (scalar_nil t)
  · exact adds_throw (scalar_nil t)

/-! ### Every depth -/

private theorem tag_toNat {a : Action} (codecs : env.codecs = .builtin) (known : a.Known env) :
    (BitVec.ofNat 32 a.tag).toNat = a.tag := by
  rw [BitVec.toNat_ofNat]
  refine Nat.mod_eq_of_lt ?_
  cases a with
  | null => exact (by decide : Tag.null < 2 ^ 32)
  | bean => exact (by decide : Tag.bean < 2 ^ 32)
  | sequence => exact (by decide : Tag.sequence < 2 ^ 32)
  | codec e v =>
    rw [Action.Known, codecs] at known
    have below := (CodecRegistry.numbered_builtin.range known).2
    rw [CodecRegistry.nextTag_builtin] at below
    exact Nat.lt_trans below (by decide)

/-- A first part of the tag of an action. -/
private theorem endsInNode_tag (codecs : env.codecs = .builtin) {a : Action} (known : a.Known env)
    {bs : List UInt8} (front : bs <+: (Primitive.tag (BitVec.ofNat 32 a.tag)).encoding) :
    EndsInNode layouts bs := by
  rcases eq_or_cut front with rfl | cut
  · have tag := tag_toNat codecs known
    rw [← List.append_nil (Primitive.tag _).encoding]
    cases a with
    | null => exact fun budget enough => .inr ⟨.null, isNode_null tag budget enough⟩
    | codec e v =>
      rw [Action.Known, codecs] at known
      obtain ⟨t, -, type, -⟩ := CodecRegistry.exists_scalar_of_builtin known
      exact endsInNode_scalar known type tag (scalar_nil t)
    | bean d v =>
      have front : [] <+: (Primitive.string d.path).encoding := List.nil_prefix
      exact endsInNode_path tag front
    | sequence items =>
      have front : [] <+: (Primitive.len items.length).encoding := List.nil_prefix
      exact endsInNode_count tag front
  · exact endsInNode_of_cut cut

/-- Writing the payload of an action, behind its tag. -/
theorem adds_writePayload (codecs : env.codecs = .builtin) (sound : below.Sound env) {a : Action}
    (known : a.Known env) :
    Adds (writePayload env below a) m
      (fun _ bs c => ∃ n,
        IsNode layouts ((Primitive.tag (BitVec.ofNat 32 a.tag)).encoding ++ bs) n ∧
          Resolves env m.memory a n c)
      fun bs => EndsInNode layouts ((Primitive.tag (BitVec.ofNat 32 a.tag)).encoding ++ bs) := by
  have tag := tag_toNat codecs known
  cases a with
  | null => exact adds_pure ⟨.null, isNode_null tag, .null _⟩
  | codec e v =>
    rw [Action.Known, codecs] at known
    obtain ⟨t, -, type, codec⟩ := CodecRegistry.exists_scalar_of_builtin known
    refine Adds.bind (Adds.outcome (adds_encode type codec v)) ?_
    rintro (reason | ⟨⟩) bs m₁ h
    · refine adds_failAt ?_
      rw [List.append_nil]
      exact endsInNode_scalar known type tag h
    · obtain ⟨s, rfl, reads, same⟩ := h
      refine adds_pure ⟨.scalar s, ?_, same ▸ .codec _ e s⟩
      rw [List.append_nil]
      exact isNode_scalar known type tag reads
  | bean d v =>
    refine Adds.bind (adds_emit
      (R := fun _ bs c => bs = (Primitive.string d.path).encoding ∧ c = m.memory) ⟨rfl, rfl⟩
      fun bs => endsInNode_path tag) ?_
    rintro _ _ m₁ ⟨rfl, same⟩
    refine (adds_writeFieldsOf sound d v).imp ?_ fun bs => endsInNode_bean tag
    rintro _ bs c ⟨ps, isStream, fields⟩
    exact ⟨.bean d.path ps, isNode_bean tag isStream, .bean (same ▸ fields)⟩
  | sequence items =>
    refine Adds.bind (adds_emit
      (R := fun _ bs c => bs = (Primitive.len items.length).encoding ∧ c = m.memory) ⟨rfl, rfl⟩
      fun bs => endsInNode_count tag) ?_
    rintro _ _ m₁ ⟨rfl, same⟩
    refine (adds_writeElements sound 0 items).imp ?_ fun bs => endsInNode_sequence tag
    rintro _ bs c ⟨ns, length, isRow, row⟩
    refine ⟨.sequence ns, ?_, .sequence (same ▸ row)⟩
    rw [← length]
    exact isNode_sequence tag isRow

/-- With the codecs of the library, writes are sound at every depth. -/
theorem sound_ofDepth (codecs : env.codecs = .builtin) (depth : Nat) :
    (Nested.ofDepth env depth : Nested ω).Sound env := by
  induction depth with
  | zero => exact fun _ _ _ => adds_abort
  | succ depth ih =>
    intro a m known
    refine Adds.bind (adds_emit
      (R := fun _ bs c => bs = (Primitive.tag (BitVec.ofNat 32 a.tag)).encoding ∧ c = m.memory)
      ⟨rfl, rfl⟩ fun bs => endsInNode_tag codecs known) ?_
    rintro _ _ m₁ ⟨rfl, same⟩
    rw [← same]
    exact adds_writePayload codecs ih known

end Pass

end BeanStream
