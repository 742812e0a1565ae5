import BeanStream.Proofs.Pass.Moments
import BeanStream.Proofs.Pass.Naming
import BeanStream.Proofs.Pass.Omission
import BeanStream.Proofs.Pass.Spelling

/-!
# Elements that cannot be written

Under the lenient policy, a property for which there is no way to write it is left out. An element
of a sequence is not, and it is **only there** that a pass fails for want of a codec.

What a computation comes to is a `Fate`: it lands in a value, or it halts for want of a codec.
`Comes env x n c fate` says that `x` comes to this over writes that are deep enough, on every
machine that remembers `c` within `n` beans. What is spelled is written (`Spells.comes`), and a
write that comes to an obstacle halts there (`Stops.comes`).

Main fact: the pass over a bean fails for want of a codec **exactly if the bean comes to an
obstacle**. The trace then begins with the index of the element, and the output ends with the number
of elements and the complete forms of those before it. The strict pass does the same, unless it has
failed before, at the first property that the lenient one leaves out
(`Pass.writeBean_halts_at_obstacle`).
-/

namespace BeanStream

open Wire Encoder Pass Machine

variable {ω : Type} [Output ω]

/-- The text of a trace begins with that of its innermost frame. -/
theorem Trace.exists_text_cons (f : Frame) (t : Trace) :
    ∃ rest, Trace.text (f :: t) = f.text ++ rest := by
  have single : Trace.text [f] = f.text := by simp [Trace.text]
  by_cases ht : t = []
  · exact ⟨"", by rw [ht, single, String.append_empty]⟩
  · refine ⟨" of " ++ t.text, ?_⟩
    rw [← List.singleton_append, text_append (List.cons_ne_nil f []) ht, single,
      String.append_assoc]

/-- A machine that remembers `c`, with `n` beans around, and a reliable output. -/
structure Machine.Ready (n : Nat) (c : Memory) (m : Machine ω) : Prop where
  memory : m.memory = c
  around : m.trace.beanDepth = n
  reliable : Output.Reliable m.encoder

theorem Machine.Ready.after {n : Nat} {c c' : Memory} {m m' : Machine ω} {bs : List UInt8}
    (h : m.Ready n c) (gains : m.Gains bs c' m') (reliable : Output.Reliable m'.encoder) :
    m'.Ready n c' :=
  ⟨gains.memory, gains.beanDepth.trans h.around, reliable⟩

/-- What a computation comes to. -/
inductive Fate (α : Type) where
  /-- A value, with these bytes written and this remembered. -/
  | lands (a : α) (bs : List UInt8) (c : Memory)
  /-- The want of a codec, below these frames, with these bytes written. -/
  | halts (frames : Trace) (typePath : String) (bs : List UInt8)

namespace Fate

variable {α : Type}

/-- What comes of it when these bytes have been written before. -/
def behind (bs : List UInt8) : Fate α → Fate α
  | lands a cs c => lands a (bs ++ cs) c
  | halts frames typePath cs => halts frames typePath (bs ++ cs)

/-- What comes of it within one more frame. -/
def under (frame : Frame) : Fate α → Fate α
  | lands a bs c => lands a bs c
  | halts frames typePath bs => halts (frames ++ [frame]) typePath bs

/-- What comes of it where the value does not matter. -/
def ignoring : Fate α → Fate Unit
  | lands _ bs c => lands () bs c
  | halts frames typePath bs => halts frames typePath bs

@[simp] theorem behind_nil (fate : Fate α) : fate.behind [] = fate := by
  cases fate <;> rfl

@[simp] theorem behind_behind (bs cs : List UInt8) (fate : Fate α) :
    (fate.behind cs).behind bs = fate.behind (bs ++ cs) := by
  cases fate <;> simp only [behind, List.append_assoc]

/-- Whether a computation that began on `m` came to this. -/
def Holds (m : Machine ω) : Fate α → Outcome WriteError α ω → Prop
  | lands a bs c, r => ∃ m', r = .ok (.ok a) m' ∧ m.Gains bs c m' ∧ Output.Reliable m'.encoder
  | halts frames typePath bs, r => ∃ m',
      r = .ok (.error (.missingCodec (frames ++ m.trace) typePath)) m' ∧
        m'.written = m.written ++ bs

/-- A computation that goes on after some bytes. -/
theorem Holds.behind {m m₁ : Machine ω} {fate : Fate α} {r : Outcome WriteError α ω}
    {bs : List UInt8} {c : Memory} (h : fate.Holds m₁ r) (gains : m.Gains bs c m₁) :
    (fate.behind bs).Holds m r := by
  cases fate with
  | lands a cs c' =>
    obtain ⟨m₂, ended, gains', reliable⟩ := h
    exact ⟨m₂, ended, gains.trans gains', reliable⟩
  | halts frames typePath cs =>
    obtain ⟨m₂, ended, written⟩ := h
    refine ⟨m₂, gains.trace ▸ ended, ?_⟩
    rw [written, gains.written, List.append_assoc]

/-- A computation that was the body of a frame. -/
theorem Holds.under {m : Machine ω} {frame : Frame} {fate : Fate α} {r : Outcome WriteError α ω}
    (h : fate.Holds (m.enter frame) r) : (fate.under frame).Holds m r.leave := by
  cases fate with
  | lands a bs c =>
    obtain ⟨m₁, rfl, gains, reliable⟩ := h
    exact ⟨m₁.leave, rfl, gains.leave, reliable⟩
  | halts frames typePath bs =>
    obtain ⟨m₁, rfl, written⟩ := h
    refine ⟨m₁.leave, ?_, written⟩
    rw [← List.append_cons]
    rfl

end Fate

namespace Pass

/-- Over writes that are deep enough, the computation comes to this, where `c` is remembered and `n`
beans are around. -/
def Comes {α : Type} (env : Env) (x : Nested ω → AttemptTo ω WriteError α) (n : Nat) (c : Memory)
    (fate : Fate α) : Prop :=
  ∃ enough, ∀ depth, enough ≤ depth → ∀ m, m.Ready n c →
    fate.Holds m ((x (.ofDepth env depth)).run m)

variable {α β : Type} {env : Env} {n n' : Nat} {c c₁ c₂ c₃ c' : Memory} {bs : List UInt8}

/-! ### Ways to put computations together -/

section Rules

variable {x : Nested ω → AttemptTo ω WriteError α} {f : Nested ω → α → AttemptTo ω WriteError β}
  {a : α} {frames : Trace} {typePath : String} {frame : Frame} {q : Fate α} {r : Fate β}

theorem comes_pure (a : α) : Comes (ω := ω) env (fun _ => pure a) n c (.lands a [] c) :=
  ⟨0, fun _ _ m ready => ⟨m, rfl, ready.memory ▸ .refl m, ready.reliable⟩⟩

theorem Comes.bind (first : Comes env x n c (.lands a bs c₁))
    (others : Comes (ω := ω) env (fun below => f below a) n c₁ r) :
    Comes (ω := ω) env (fun below => x below >>= f below) n c (r.behind bs) := by
  obtain ⟨enough, first⟩ := first
  obtain ⟨enough', others⟩ := others
  refine ⟨max enough enough', fun depth deep m ready => ?_⟩
  obtain ⟨m₁, run, gains, reliable⟩ := first depth (by omega) m ready
  have rest := others depth (by omega) m₁ (ready.after gains reliable)
  rw [run_bind, run]
  exact rest.behind gains

/-- What follows a computation that writes nothing. -/
theorem Comes.after (first : Comes env x n c (.lands a [] c₁))
    (others : Comes (ω := ω) env (fun below => f below a) n c₁ r) :
    Comes (ω := ω) env (fun below => x below >>= f below) n c r := by
  have both := first.bind others
  rwa [Fate.behind_nil] at both

/-- What follows a computation that halts is not reached. -/
theorem Comes.bind_halts (halts : Comes env x n c (.halts frames typePath bs)) :
    Comes (ω := ω) env (fun below => x below >>= f below) n c (.halts frames typePath bs) := by
  obtain ⟨enough, halts⟩ := halts
  refine ⟨enough, fun depth deep m ready => ?_⟩
  obtain ⟨m', run, written⟩ := halts depth deep m ready
  refine ⟨m', ?_, written⟩
  rw [run_bind, run]
  rfl

theorem Comes.framed
    (around : ∀ t : Trace, t.beanDepth = n → Trace.beanDepth (frame :: t) = n')
    (h : Comes env x n' c q) :
    Comes (ω := ω) env (fun below => framed frame (x below)) n c (q.under frame) := by
  obtain ⟨enough, h⟩ := h
  refine ⟨enough, fun depth deep m ready => ?_⟩
  have body := h depth deep (m.enter frame)
    ⟨ready.memory, around _ ready.around, ready.reliable⟩
  rw [run_framed]
  exact body.under

theorem Comes.discard (h : Comes env x n c q) :
    Comes (ω := ω) env (fun below => discard (x below)) n c q.ignoring := by
  obtain ⟨enough, h⟩ := h
  refine ⟨enough, fun depth deep m ready => ?_⟩
  have spec := h depth deep m ready
  rw [run_discard]
  cases q with
  | lands a bs c' =>
    obtain ⟨m', run, rest⟩ := spec
    exact ⟨m', by rw [run]; rfl, rest⟩
  | halts frames typePath bs =>
    obtain ⟨m', run, written⟩ := spec
    exact ⟨m', by rw [run]; rfl, written⟩

/-- The store can be looked at. -/
theorem Comes.bind_get {x : Store → Nested ω → AttemptTo ω WriteError α}
    (h : Comes (ω := ω) env (x c.store) n c q) :
    Comes (ω := ω) env (fun below => getThe (Machine ω) >>= fun m => x m.store below) n c q := by
  obtain ⟨enough, h⟩ := h
  refine ⟨enough, fun depth deep m ready => ?_⟩
  have spec := h depth deep m ready
  rw [← ready.memory] at spec
  exact spec

end Rules

/-! ### Operations -/

theorem comes_emit (p : Primitive) :
    Comes (ω := ω) env (fun _ => emit p) n c (.lands () p.encoding c) := by
  refine ⟨0, fun _ _ m ready => ?_⟩
  obtain ⟨encoder, run, written, reliable⟩ := exists_run_emit ready.reliable p
  exact ⟨{ m with encoder }, run, ⟨written, ready.memory, rfl⟩, reliable⟩

/-- What stands in the log does not matter. -/
theorem comes_log (line : Trace → LogLine) (a : α) :
    Comes (ω := ω) env (fun _ => do
      log (ω := ω) (line (← Pass.trace (ω := ω)))
      return a) n c (.lands a [] c) :=
  ⟨0, fun _ _ m ready => ⟨{ m with logs := m.logs ++ [line m.trace] }, rfl,
    ⟨(List.append_nil _).symm, ready.memory, rfl⟩, ready.reliable⟩⟩

theorem comes_unwrap {v w : Option Value} (unwraps : c.Unwraps env v w c') (frames : List Frame) :
    Comes (ω := ω) env (fun _ => unwrap env frames v) n c (.lands w [] c') := by
  refine ⟨0, fun _ _ m ready => ?_⟩
  obtain rfl := ready.memory
  obtain ⟨store, beans⟩ := c'
  obtain ⟨run, rfl⟩ := unwraps
  have run : (Value.unwrap env.decls v).run m.store = .ok (.ok w) store := run
  refine ⟨{ m with store }, ?_, ⟨(List.append_nil _).symm, rfl, rfl⟩, ready.reliable⟩
  rw [run_unwrap, run]

theorem comes_actionFor {v : Option Value} {a : Option Action} (chooses : c.Chooses env v a c') :
    Comes (ω := ω) env (fun _ => liftM (actionFor env v)) n c (.lands a [] c') := by
  refine ⟨0, fun _ _ m ready => ?_⟩
  obtain rfl := ready.memory
  obtain ⟨run, gained⟩ := actionFor_of_chooses chooses
  refine ⟨{ m with beans := c'.beans }, ?_, ⟨(List.append_nil _).symm, gained.symm, rfl⟩,
    ready.reliable⟩
  rw [run_lift, run]

/-! ### Values and properties -/

section Values

variable {v w : Option Value} {a : Action} {frames : Trace} {typePath name : String}

/-- The writes one level below have one less to go. -/
theorem comes_writeWith {q : Fate Unit}
    (payload : Comes (ω := ω) env (fun below => writePayload env below a) n c q) :
    Comes (ω := ω) env (fun below => below.writeWith a) n c (q.behind a.mark) := by
  have tagged : Comes (ω := ω) env (fun below => writeWith env below a) n c (q.behind a.mark) :=
    (comes_emit _).bind payload
  obtain ⟨enough, h⟩ := tagged
  refine ⟨enough + 1, fun depth deep m ready => ?_⟩
  obtain ⟨depth, rfl⟩ := Nat.exists_eq_add_of_le' (Nat.le_of_add_left_le deep)
  exact h depth (by omega) m ready

theorem comes_writeValue {q : Fate Unit} (unwraps : c.Unwraps env v w c₁)
    (chooses : c₁.Chooses env w (some a) c₂)
    (h : Comes (ω := ω) env (fun below => below.writeWith a) n c₂ q) :
    Comes (ω := ω) env (fun below => writeValue env below v) n c q := by
  refine Comes.after (comes_unwrap unwraps []) ?_
  exact Comes.after (comes_actionFor chooses) h

/-- A value for which there is no way to write it. -/
theorem comes_writeValue_none (unwraps : c.Unwraps env v w c₁)
    (nothing : c₁.Chooses env w none c₂) :
    Comes (ω := ω) env (fun below => writeValue env below v) n c
      (.halts [] (typePathOf env w) []) := by
  refine Comes.after (comes_unwrap unwraps []) ?_
  refine Comes.after (comes_actionFor nothing) ?_
  exact ⟨0, fun _ _ m _ => ⟨m, rfl, (List.append_nil _).symm⟩⟩

/-- A property without codec is left out. -/
theorem comes_writeResolvedProperty_none (lenient : env.settings.missing = .warn)
    (kind : PropertyKind) (name : String) (nothing : c.Chooses env w none c₁) :
    Comes (ω := ω) env (fun below => writeResolvedProperty env below kind name w) n c
      (.lands false [] c₁) := by
  refine Comes.framed (q := .lands false [] c₁)
    (fun t around => (Trace.beanDepth_property kind name t).trans around) ?_
  refine Comes.after (comes_actionFor nothing) ?_
  simp only [omitProperty, lenient]
  exact comes_log (ω := ω) _ false

theorem comes_writeResolvedProperty (kind : PropertyKind) (name : String)
    (chooses : c.Chooses env w (some a) c₁)
    (h : Comes (ω := ω) env (fun below => below.writeWith a) n c₁ (.lands () bs c₂)) :
    Comes (ω := ω) env (fun below => writeResolvedProperty env below kind name w) n c
      (.lands true ((Primitive.string name).encoding ++ bs) c₂) := by
  refine Comes.framed (q := .lands true ((Primitive.string name).encoding ++ bs) c₂)
    (fun t around => (Trace.beanDepth_property kind name t).trans around) ?_
  refine Comes.after (comes_actionFor chooses) ?_
  refine Comes.bind (r := .lands true bs c₂) (comes_emit (.string name)) ?_
  rw [← List.append_nil bs]
  exact Comes.bind (r := .lands true [] c₂) h (comes_log (ω := ω) _ true)

theorem comes_writeResolvedProperty_halts (kind : PropertyKind) (name : String)
    (chooses : c.Chooses env w (some a) c₁)
    (h : Comes (ω := ω) env (fun below => below.writeWith a) n c₁ (.halts frames typePath bs)) :
    Comes (ω := ω) env (fun below => writeResolvedProperty env below kind name w) n c
      (.halts (frames ++ [.property kind name]) typePath
        ((Primitive.string name).encoding ++ bs)) := by
  refine Comes.framed
    (q := .halts frames typePath ((Primitive.string name).encoding ++ bs))
    (fun t around => (Trace.beanDepth_property kind name t).trans around) ?_
  refine Comes.after (comes_actionFor chooses) ?_
  refine Comes.bind (r := .halts frames typePath bs) (comes_emit (.string name)) ?_
  exact h.bind_halts

theorem comes_writeNextProperty {q : Fate Bool} (named : name ≠ "") (unwraps : c.Unwraps env v w c₁)
    (kind : PropertyKind)
    (h : Comes (ω := ω) env (fun below => writeResolvedProperty env below kind name w) n c₁ q) :
    Comes (ω := ω) env (fun below => writeNextProperty env below name v kind) n c q := by
  simp only [writeNextProperty, if_neg named]
  exact Comes.after (comes_unwrap unwraps _) h

/-- What comes of a field is what comes of its value as a property. -/
theorem comes_writeField {d : Descriptor} {u : Value} {f : Field} {q : Fate Bool}
    (named : f.name ≠ "") (effective : c.Effective env d u f w c₁)
    (h : Comes (ω := ω) env (fun below => writeResolvedProperty env below .field f.name w) n c₁ q) :
    Comes (ω := ω) env (fun below => writeField env below d u (d.conventionsOf u) f) n c
      q.ignoring := by
  cases effective with
  | own read unwraps =>
    rcases brings : d.conventionsOf u with _ | mapping
    · simp only [writeField, read]
      exact (comes_writeNextProperty named unwraps .field h).discard
    -- the content is unwrapped a second time, which does nothing
    · simp only [writeField, read]
      refine Comes.after (comes_unwrap unwraps _) ?_
      exact (comes_writeNextProperty named (Memory.unwraps_self unwraps.plain) .field h).discard
  | absent read unwraps brings =>
    simp only [writeField, read, brings]
    exact (comes_writeNextProperty named unwraps .field h).discard
  | convention read unwraps brings convention =>
    simp only [writeField, read, brings]
    refine Comes.after (comes_unwrap unwraps _) ?_
    refine Comes.bind_get (x := fun s below =>
      discard (writeNextProperty env below f.name (s.conventionValue _ f.name) .field)) ?_
    exact (comes_writeNextProperty named convention .field h).discard

/-- What comes of an instance of a bean is what comes of its fields, within its frame. -/
theorem comes_writeFieldsOf {d : Descriptor} {u : Value} {q : Fate Unit}
    (within : n < env.settings.maxDepth)
    (h : Comes (ω := ω) env (fun below => writingProperties
      (writeFields env below d u (d.conventionsOf u) d.fields)) (n + 1) c q) :
    Comes (ω := ω) env (fun below => writeFieldsOf env below d u) n c (q.under (.bean d.path)) := by
  have body := h.framed (n := n) fun t around =>
    (Trace.beanDepth_bean d.path t).trans (congrArg (· + 1) around)
  obtain ⟨enough, body⟩ := body
  refine ⟨enough, fun depth deep m ready => ?_⟩
  have room : ¬ env.settings.maxDepth ≤ m.trace.beanDepth := by
    rw [ready.around]
    omega
  change q.under (.bean d.path) |>.Holds m ((writeFieldsOf env (.ofDepth env depth) d u).run m)
  rw [writeFieldsOf_eq_underBean, run_underBean, if_neg room, ← run_framed]
  exact body depth deep m ready

theorem comes_writePayload_bean {d : Descriptor} {u : Value} {q : Fate Unit}
    (h : Comes (ω := ω) env (fun below => writeFieldsOf env below d u) n c q) :
    Comes (ω := ω) env (fun below => writePayload env below (.bean d u)) n c
      (q.behind (Primitive.string d.path).encoding) :=
  Comes.bind (comes_emit (.string d.path)) h

theorem comes_writePayload_sequence {items : List Value} {q : Fate Unit}
    (h : Comes (ω := ω) env (fun below => writeElements env below 0 items) n c q) :
    Comes (ω := ω) env (fun below => writePayload env below (.sequence items)) n c
      (q.behind (Primitive.len items.length).encoding) :=
  Comes.bind (comes_emit (.len items.length)) h

/-- A codec writes what it spells. -/
theorem comes_writePayload_codec {e : Entry} {u : Value} (own : u.typeId = e.type)
    (codec : (e.codec u).Spells bs) :
    Comes (ω := ω) env (fun below => writePayload env below (.codec e u)) n c (.lands () bs c) := by
  obtain ⟨pieces, rfl, run⟩ := codec
  refine ⟨0, fun depth _ m ready => ?_⟩
  obtain ⟨encoder, taken, written, reliable⟩ := exists_writePieces ready.reliable pieces
  refine ⟨{ m with encoder }, ?_, ⟨written, ready.memory, rfl⟩, reliable⟩
  have notNested : ∀ source, (.ok () : Except CodecError Unit) ≠ .error (.nested source) := nofun
  rw [run_writePayload_codec own notNested (run env _ m), payloadEnding, taken]

end Values

end Pass

mutual

/-- What an action spells is written. -/
theorem Spells.comes {env : Env} {n : Nat} {c c' : Memory} {a : Action} {bs : List UInt8} :
    Spells env n c a bs c' →
      Comes (ω := ω) env (fun below => below.writeWith a) n c (.lands () bs c')
  | .null _ _ => by
    have payload :
        Comes (ω := ω) env (fun below => writePayload env below .null) n c (.lands () [] c) :=
      comes_pure ()
    have written := comes_writeWith payload
    rwa [Fate.behind, List.append_nil] at written
  | .codec type codec => comes_writeWith (comes_writePayload_codec type codec)
  | .bean within fields => by
    have row := fields.comes [] (.lands () [] _) (comes_pure ())
    rw [List.append_nil, Fate.behind, List.append_nil] at row
    have body := comes_writeFieldsOf within
      (Comes.bind (f := fun _ _ => writeName (ω := ω) "") row (comes_emit (.string "")))
    exact comes_writeWith (comes_writePayload_bean body)
  | .sequence row => by
    have elements := row.comes 0 [] (.lands () [] _) (comes_pure ())
    rw [List.append_nil, Fate.behind, List.append_nil] at elements
    exact comes_writeWith (comes_writePayload_sequence elements)

/-- A row of elements that is spelled is written, and what follows it comes after that. -/
theorem RowSpells.comes {env : Env} {n : Nat} {c c' : Memory} {before : List Value}
    {forms : List (List UInt8)} : RowSpells env n c before forms c' →
    ∀ (index : Nat) (vs : List Value) (r : Fate Unit),
      Comes (ω := ω) env (fun below => writeElements env below (index + before.length) vs) n c' r →
      Comes (ω := ω) env (fun below => writeElements env below index (before ++ vs)) n c
        (r.behind forms.flatten)
  | .nil _ _ => fun index vs r rest => by
    rwa [List.flatten_nil, Fate.behind_nil]
  | .cons unwraps chooses spells others => fun index vs r rest => by
    have first := comes_writeValue unwraps chooses spells.comes
    have rest := others.comes (index + 1) vs r (by
      rwa [List.length_cons, ← Nat.add_assoc, Nat.add_right_comm] at rest)
    rw [List.flatten_cons, ← Fate.behind_behind]
    refine Comes.bind (Comes.framed ?_ first) rest
    exact fun t around => (Trace.beanDepth_element index t).trans around

/-- A row of fields that is spelled is written, and what follows it comes after that. -/
theorem FieldsSpell.comes {env : Env} {n : Nat} {c c' : Memory} {d : Descriptor} {v : Value}
    {before : List Field} {bs : List UInt8} : FieldsSpell env n c d v before bs c' →
    ∀ (fs : List Field) (r : Fate Unit),
      Comes (ω := ω) env (fun below => writeFields env below d v (d.conventionsOf v) fs) n c' r →
      Comes (ω := ω) env
        (fun below => writeFields env below d v (d.conventionsOf v) (before ++ fs)) n c
        (r.behind bs)
  | .nil _ _ _ _ => fun fs r rest => by
    rwa [Fate.behind_nil]
  | .omitted lenient named effective nothing others => fun fs r rest =>
    have first := comes_writeField named effective
      (comes_writeResolvedProperty_none lenient .field _ nothing)
    Comes.after first (others.comes fs r rest)
  | .written named effective chooses spells others => fun fs r rest => by
    have first := comes_writeField named effective
      (comes_writeResolvedProperty .field _ chooses spells.comes)
    rw [← Fate.behind_behind]
    exact Comes.bind first (others.comes fs r rest)

end

/-- A sequence halts where the write of an element does, if those before it are spelled. -/
theorem RowSpells.halts {env : Env} {n : Nat} {c c₁ : Memory} {before : List Value} {v : Value}
    {forms : List (List UInt8)} {frames : Trace} {typePath : String} {bs : List UInt8}
    (row : RowSpells env n c before forms c₁) (after : List Value)
    (halts : Comes (ω := ω) env (fun below => writeValue env below (some v)) n c₁
      (.halts frames typePath bs)) :
    Comes (ω := ω) env (fun below => below.writeWith (.sequence (before ++ v :: after))) n c
      (.halts (frames ++ [.element before.length]) typePath
        ((Action.sequence (before ++ v :: after)).mark ++
          ((Primitive.len (before ++ v :: after).length).encoding ++ (forms.flatten ++ bs)))) := by
  have first : Comes (ω := ω) env
      (fun below => writeElements env below (0 + before.length) (v :: after)) n c₁
      (.halts (frames ++ [.element (0 + before.length)]) typePath bs) := by
    refine Comes.bind_halts (Comes.framed (q := .halts frames typePath bs) ?_ halts)
    exact fun t around => (Trace.beanDepth_element _ t).trans around
  have elements := row.comes 0 (v :: after) _ first
  rw [Nat.zero_add] at elements
  exact comes_writeWith (comes_writePayload_sequence elements)

mutual

/-- A write that comes to an obstacle halts there. -/
theorem Stops.comes {env : Env} {n : Nat} {c : Memory} {a : Action} {o : Obstacle} :
    Stops env n c a o →
      Comes (ω := ω) env (fun below => below.writeWith a) n c (.halts o.trace o.typePath o.bytes)
  | .here after split row unwraps nothing => by
    subst split
    have halts := row.halts (ω := ω) after (comes_writeValue_none unwraps nothing)
    rw [List.append_nil] at halts
    exact halts
  | .element after split row unwraps chooses stops => by
    subst split
    have halts := row.halts (ω := ω) after (comes_writeValue unwraps chooses stops.comes)
    rw [Obstacle.bytes_behind, List.append_assoc, List.append_assoc]
    exact halts
  | .bean within stops => by
    have body := comes_writeFieldsOf within
      (Comes.bind_halts (f := fun _ _ => writeName (ω := ω) "") stops.comes)
    rw [Obstacle.bytes_behind, List.append_assoc]
    exact comes_writeWith (comes_writePayload_bean body)

/-- Fields in a row that come to an obstacle halt there. -/
theorem FieldsStop.comes {env : Env} {n : Nat} {c : Memory} {d : Descriptor} {v : Value}
    {fs : List Field} {o : Obstacle} : FieldsStop env n c d v fs o →
      Comes (ω := ω) env (fun below => writeFields env below d v (d.conventionsOf v) fs) n c
        (.halts o.trace o.typePath o.bytes)
  | .field after split fields named effective chooses stops => by
    subst split
    have halts := comes_writeField named effective
      (comes_writeResolvedProperty_halts .field _ chooses stops.comes)
    rw [Obstacle.bytes_behind, List.append_assoc]
    exact fields.comes (_ :: after) _ (Comes.bind_halts halts)

end

namespace Pass

variable {env : Env} {m : Machine} {v : Value}

/-- A bean that comes to an obstacle halts there. -/
theorem exists_run_writeBean {m : Machine ω} {o : Obstacle} (reliable : Output.Reliable m.encoder)
    (stops : BeanObstacle env m v o) :
    ∃ enough, ∀ depth, enough ≤ depth → ∃ m', (writeBean env (.ofDepth env depth) v).run m =
        .ok (.error (.missingCodec (o.trace ++ m.trace) o.typePath)) m' ∧
      m'.written = m.written ++ o.bytes := by
  obtain ⟨d, beans, found, stops⟩ := stops
  cases stops with
  | inside within fields =>
    have body := comes_writeFieldsOf within
      (Comes.bind_halts (f := fun _ _ => writeName (ω := ω) "") fields.comes)
    obtain ⟨enough, body⟩ := body
    refine ⟨enough, fun depth deep => ?_⟩
    obtain ⟨m', run, written⟩ := body depth deep { m with beans } ⟨rfl, rfl, reliable⟩
    refine ⟨m', ?_, written⟩
    rw [writeBean, run_bind, run_writer?, found]
    exact run

/-- The pass over a bean, under the lenient policy.

* A bean that comes to an obstacle fails there for want of a codec, over nested writes that are deep
  enough.
* A pass that fails for want of a codec has come to an obstacle: the trace begins with the index of
  the element, and so does its text, and the output ends with what is before it.
* Then the strict pass fails in the same way, with the same bytes, if nothing was left out before.
  Else it has failed at the first property that was. -/
theorem writeBean_halts_at_obstacle (lenient : env.settings.missing = .warn)
    (plain : env.codecs.Plain) (unlimited : m.encoder.sink.Unlimited) (v : Value) :
    (∀ o, BeanObstacle env m v o → ∃ enough, ∀ depth, enough ≤ depth → ∃ m',
      (writeBean env (.ofDepth env depth) v).run m =
          .ok (.error (.missingCodec (o.trace ++ m.trace) o.typePath)) m' ∧
        m'.written = m.written ++ o.bytes) ∧
      ∀ depth t typePath m', (writeBean env (.ofDepth env depth) v).run m =
          .ok (.error (.missingCodec t typePath)) m' →
        (∃ o, BeanObstacle env m v o ∧ t = o.trace ++ m.trace ∧ typePath = o.typePath ∧
          m'.written = m.written ++ o.bytes ∧
          ∃ rest, t.text = "element " ++ toString o.index ++ rest) ∧
        let strict := env.under (env.settings.withMissing .fail)
        let failed := (writeBean strict (.ofDepth strict depth) v).run m
        (∃ lines m₁, m'.logs = m.logs ++ lines ∧ (∀ line ∈ lines, line.isOmission = false) ∧
            failed = .ok (.error (.missingCodec t typePath)) m₁ ∧ m₁.written = m'.written) ∨
          ∃ before t' typePath' after m₁,
            m'.logs = m.logs ++ (before ++ .omitted t' typePath' :: after) ∧
            (∀ line ∈ before, line.isOmission = false) ∧
            failed = .ok (.error (.missingCodec t' typePath')) m₁ ∧
            m₁.logs = m.logs ++ before ∧ m₁.written <+: m'.written := by
  refine ⟨fun o stops => exists_run_writeBean (Encoder.reliable unlimited) stops, ?_⟩
  intro depth t typePath m' run
  have told := (tells_writeBean lenient plain depth v).failed run t typePath rfl
  obtain ⟨_, _, ⟨o, stops, rfl, rfl, rfl⟩, place, written⟩ := told
  have text : ∃ rest, t.text = "element " ++ toString o.index ++ rest :=
    place ▸ Trace.exists_text_cons (.element o.index) (o.place ++ m.trace)
  refine ⟨⟨o, stops, place, rfl, written, text⟩, ?_⟩
  intro strict failed
  have warned : ((Call.bean v).run env (.ofDepth env depth)).run m = _ := run
  obtain ⟨lines, kept, logged, none_omitted, beside⟩ :=
    (Call.bean v).run_lenient plain depth unlimited
  rw [warned] at logged beside
  rcases beside with ⟨rfl, alike⟩ | ⟨t', typePath', more, m₁, rfl, stopped, logs, omits⟩
  · have alike : Alike Shows (.ok (.error (.missingCodec _ _)) m') failed := alike
    generalize failed = r at alike ⊢
    cases alike with
    | ok _ left => exact .inl ⟨lines, _, logged, none_omitted, rfl, left.written.symm⟩
  · exact .inr ⟨kept, t', typePath', more, m₁, logged, none_omitted, stopped, logs, omits.written⟩

/-- Which codec a computation failed for want of, and where. -/
private def missing? {α : Type} : Outcome WriteError α ω → Option (Trace × String)
  | .ok (.error (.missingCodec t typePath)) _ => some (t, typePath)
  | _ => none

omit [Output ω] in
private theorem exists_of_missing? {α : Type} {t : Trace} {p : String}
    {r : Outcome WriteError α ω} (h : missing? r = some (t, p)) :
    ∃ m', r = .ok (.error (.missingCodec t p)) m' := by
  unfold missing? at h
  split at h
  · cases h
    exact ⟨_, rfl⟩
  · cases h

/-- The next link of a chain is a list, whose second element cannot be written. -/
theorem writeBean_halts_at_obstacle_link :
    let odd : Value := .custom "demo::Odd" "" none
    let row : Value := .sequence (.list .boxed) [.scalar (.string "a"), odd]
    ∃ m' o, (writeBean Link.env (.ofDepth Link.env 3) (Link.link (some row) [97])).run
        Link.machine = .ok (.error (.missingCodec o.trace "demo::Odd")) m' ∧
      BeanObstacle Link.env Link.machine (Link.link (some row) [97]) o ∧
      o.trace = [.element 1, .property .field "next", .bean "demo::Link"] ∧
      m'.written = o.bytes := by
  intro odd row
  obtain ⟨m', run⟩ := exists_of_missing?
    (r := (writeBean Link.env (.ofDepth Link.env 3) (Link.link (some row) [97])).run Link.machine)
    (t := [.element 1, .property .field "next", .bean "demo::Link"])
    (p := "demo::Odd") (by decide +kernel)
  have spec := (@writeBean_halts_at_obstacle Link.env Link.machine rfl CodecRegistry.plain_builtin
    ⟨rfl, nofun⟩ (Link.link (some row) [97])).2 3 _ _ m' run
  obtain ⟨⟨o, stops, place, -, written, -⟩, -⟩ := spec
  have here : [.element 1, .property .field "next", .bean "demo::Link"] = o.trace :=
    place.trans (List.append_nil _)
  exact ⟨m', o, here ▸ run, stops, here.symm, written⟩

end Pass

end BeanStream
