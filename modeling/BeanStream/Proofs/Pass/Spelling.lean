import BeanStream.Proofs.Codec.Plain
import BeanStream.Proofs.Pass.Resolution

/-!
# What an action spells, and where it stops

The bytes that an action **spells** (`Spells`) are its complete form, where codecs only write: its
tag, and then what its codec writes, or a type path and the properties of the fields, or a count and
the forms of the elements. Fields for which there is no way to write them have no form, under the
lenient policy. All of that is told in terms of what is remembered, without a pass.

An element of a sequence cannot be left out, since its place is counted. An action **stops**
(`Stops`) at the first element, at any nesting, for which there is no way to write it, if all that
comes before it is spelled completely. Where it stops is told by an `Obstacle`.

Main fact: under the lenient policy, a write that succeeds has written what its action spells, and
one that fails for want of a codec has come to an obstacle, and **has written what is before it**
(`tells_ofDepth`).
-/

namespace BeanStream

open Wire Encoder Pass

/-- In every pass, the script writes these bytes, and succeeds. -/
def Script.Spells (s : Script) (bs : List UInt8) : Prop :=
  ∃ pieces : List (List UInt8), pieces.flatten = bs ∧ s.Performs pieces (.ok ())

/-- The form of the tag of an action. -/
def Action.mark (a : Action) : List UInt8 := (Primitive.tag (BitVec.ofNat 32 a.tag)).encoding

mutual

/-- The complete form of an action, where `n` beans are nested already. -/
inductive Spells (env : Env) : (n : Nat) → Memory → Action → List UInt8 → Memory → Prop
  | null (n c) : Spells env n c .null Action.null.mark c
  | codec {n c e v bs} (type : v.typeId = e.type) (codec : (e.codec v).Spells bs) :
      Spells env n c (.codec e v) ((Action.codec e v).mark ++ bs) c
  | bean {n c d v bs c'} (within : n < env.settings.maxDepth)
      (fields : FieldsSpell env (n + 1) c d v d.fields bs c') :
      Spells env n c (.bean d v)
        ((Action.bean d v).mark ++ ((Primitive.string d.path).encoding ++
          (bs ++ (Primitive.string "").encoding))) c'
  | sequence {n c items forms c'} (row : RowSpells env n c items forms c') :
      Spells env n c (.sequence items)
        ((Action.sequence items).mark ++ ((Primitive.len items.length).encoding ++
          forms.flatten)) c'

/-- The complete forms of elements in a row. -/
inductive RowSpells (env : Env) :
    (n : Nat) → Memory → List Value → List (List UInt8) → Memory → Prop
  | nil (n c) : RowSpells env n c [] [] c
  | cons {n c v w c₁ a c₂ bs c₃ vs forms c'} (unwraps : c.Unwraps env (some v) w c₁)
      (chooses : c₁.Chooses env w (some a) c₂) (spells : Spells env n c₂ a bs c₃)
      (others : RowSpells env n c₃ vs forms c') : RowSpells env n c (v :: vs) (bs :: forms) c'

/-- The complete form of fields in a row, of an instance `v` of a bean. -/
inductive FieldsSpell (env : Env) :
    (n : Nat) → Memory → Descriptor → Value → List Field → List UInt8 → Memory → Prop
  | nil (n c d v) : FieldsSpell env n c d v [] [] c
  | omitted {n c d v f w c₁ c₂ fs bs c'} (lenient : env.settings.missing = .warn)
      (named : f.name ≠ "") (effective : c.Effective env d v f w c₁)
      (nothing : c₁.Chooses env w none c₂) (others : FieldsSpell env n c₂ d v fs bs c') :
      FieldsSpell env n c d v (f :: fs) bs c'
  | written {n c d v f w c₁ a c₂ bs c₃ fs more c'} (named : f.name ≠ "")
      (effective : c.Effective env d v f w c₁) (chooses : c₁.Chooses env w (some a) c₂)
      (spells : Spells env n c₂ a bs c₃) (others : FieldsSpell env n c₃ d v fs more c') :
      FieldsSpell env n c d v (f :: fs) ((Primitive.string f.name).encoding ++ bs ++ more) c'

end

/-- What stands in front of a member of a list is not all of it. -/
theorem length_lt_of_split {α : Type} {items before after : List α} {a : α}
    (split : items = before ++ a :: after) : before.length < items.length := by
  rw [split, List.length_append, List.length_cons]
  omega

/-- There is a form for each element. -/
theorem RowSpells.length_eq {env : Env} {n : Nat} {c c' : Memory} {vs : List Value}
    {forms : List (List UInt8)} : RowSpells env n c vs forms c' → forms.length = vs.length
  | .nil _ _ => rfl
  | .cons _ _ _ others => congrArg (· + 1) others.length_eq

/-- An element of a sequence for which there is no way to write it. -/
structure Obstacle where
  /-- The frames around the sequence, the innermost first. -/
  place : Trace
  /-- What is written before the sequence. -/
  front : List UInt8
  /-- How many elements the sequence has. -/
  count : Nat
  /-- The index of the element. -/
  index : Nat
  /-- What is written for the elements before it. -/
  forms : List (List UInt8)
  /-- The type path of what the element unwraps to. -/
  typePath : String
  /-- There is a form for each of the elements before. -/
  counted : forms.length = index
  /-- The element is one of the sequence. -/
  inside : index < count

namespace Obstacle

/-- The trace at the obstacle. -/
def trace (o : Obstacle) : Trace := .element o.index :: o.place

/-- What is written before the obstacle: at the end, the tag of the sequence, the number of its
elements, and the forms of those before the obstacle. -/
def bytes (o : Obstacle) : List UInt8 :=
  o.front ++ ((Primitive.tag (BitVec.ofNat 32 Tag.sequence)).encoding ++
    ((Primitive.len o.count).encoding ++ o.forms.flatten))

/-- The obstacle as it is seen from further outside. -/
def behind (outer : Trace) (bs : List UInt8) (o : Obstacle) : Obstacle :=
  { o with place := o.place ++ outer, front := bs ++ o.front }

@[simp] theorem bytes_behind (outer : Trace) (bs : List UInt8) (o : Obstacle) :
    (o.behind outer bs).bytes = bs ++ o.bytes := List.append_assoc ..

theorem behind_behind (inner outer : Trace) (bs cs : List UInt8) (o : Obstacle) :
    (o.behind inner cs).behind outer bs = o.behind (inner ++ outer) (bs ++ cs) := by
  simp only [behind, List.append_assoc]

end Obstacle

mutual

/-- The obstacle that an action comes to, where `n` beans are nested already. -/
inductive Stops (env : Env) : (n : Nat) → Memory → Action → Obstacle → Prop
  /-- An element of a type without codec, that is no bean and no sequence. -/
  | here {n c items before v forms c₁ w c₂ c₃} (after) (split : items = before ++ v :: after)
      (row : RowSpells env n c before forms c₁) (unwraps : c₁.Unwraps env (some v) (some w) c₂)
      (nothing : c₂.Chooses env (some w) none c₃) :
      Stops env n c (.sequence items)
        { place := [], front := [], count := items.length, index := before.length, forms,
          typePath := w.typePath env.decls, counted := row.length_eq
          inside := length_lt_of_split split }
  /-- Inside of an element. -/
  | element {n c items before v forms c₁ w c₂ a c₃ o} (after) (split : items = before ++ v :: after)
      (row : RowSpells env n c before forms c₁) (unwraps : c₁.Unwraps env (some v) w c₂)
      (chooses : c₂.Chooses env w (some a) c₃) (stops : Stops env n c₃ a o) :
      Stops env n c (.sequence items)
        (o.behind [.element before.length]
          ((Action.sequence items).mark ++ ((Primitive.len items.length).encoding ++
            forms.flatten)))
  /-- Inside of a field. -/
  | bean {n c d v o} (within : n < env.settings.maxDepth)
      (stops : FieldsStop env (n + 1) c d v d.fields o) :
      Stops env n c (.bean d v)
        (o.behind [.bean d.path] ((Action.bean d v).mark ++ (Primitive.string d.path).encoding))

/-- The obstacle that fields in a row come to, of an instance `v` of a bean. -/
inductive FieldsStop (env : Env) :
    (n : Nat) → Memory → Descriptor → Value → List Field → Obstacle → Prop
  | field {n c d v fs before f bs c₁ w c₂ a c₃ o} (after) (split : fs = before ++ f :: after)
      (fields : FieldsSpell env n c d v before bs c₁) (named : f.name ≠ "")
      (effective : c₁.Effective env d v f w c₂) (chooses : c₂.Chooses env w (some a) c₃)
      (stops : Stops env n c₃ a o) :
      FieldsStop env n c d v fs
        (o.behind [.property .field f.name] (bs ++ (Primitive.string f.name).encoding))

end

/-! ### What a computation tells -/

namespace Machine

variable {ω : Type} [Output ω]

/-- From `m` on, these bytes were written, and `c` is remembered in the end. -/
structure Gains (m : Machine ω) (bs : List UInt8) (c : Memory) (m' : Machine ω) : Prop where
  written : m'.written = m.written ++ bs
  memory : m'.memory = c
  trace : m'.trace = m.trace

theorem Gains.refl (m : Machine ω) : m.Gains [] m.memory m :=
  ⟨(List.append_nil _).symm, rfl, rfl⟩

theorem Gains.trans {m m₁ m₂ : Machine ω} {bs cs : List UInt8} {c c' : Memory}
    (h : m.Gains bs c m₁) (h' : m₁.Gains cs c' m₂) : m.Gains (bs ++ cs) c' m₂ :=
  ⟨by rw [h'.written, h.written, List.append_assoc], h'.memory, h'.trace.trans h.trace⟩

/-- The frame is taken off behind the body. -/
theorem Gains.leave {f : Frame} {m m' : Machine ω} {bs : List UInt8} {c : Memory}
    (h : (m.enter f).Gains bs c m') : m.Gains bs c m'.leave :=
  ⟨h.written, h.memory, trace_leave_of_enter h.trace⟩

/-- The number of beans around is what it was. -/
theorem Gains.beanDepth {m m' : Machine ω} {bs : List UInt8} {c : Memory} (h : m.Gains bs c m') :
    m'.trace.beanDepth = m.trace.beanDepth :=
  congrArg Trace.beanDepth h.trace

end Machine

namespace Pass

variable {ω α β : Type} [Output ω] {m : Machine ω}

/-- Where a computation ends in a value, the bytes that it wrote, the value and what is remembered
satisfy `R`. Where it fails for want of a codec, the frames at that point, the type path and the
bytes satisfy `H`. -/
def Tells (x : AttemptTo ω WriteError α) (m : Machine ω) (R : α → List UInt8 → Memory → Prop)
    (H : Trace → String → List UInt8 → Prop) : Prop :=
  Meets x m
    { done := fun a m' => ∃ bs c, R a bs c ∧ m.Gains bs c m'
      failed := fun e m' => ∀ t typePath, e = .missingCodec t typePath →
        ∃ frames bs, H frames typePath bs ∧ t = frames ++ m.trace ∧ m'.written = m.written ++ bs
      aborted := fun _ _ => True }

variable {R : α → List UInt8 → Memory → Prop} {H : Trace → String → List UInt8 → Prop}

namespace Tells

theorem imp {x : AttemptTo ω WriteError α} {R' : α → List UInt8 → Memory → Prop}
    {H' : Trace → String → List UInt8 → Prop} (h : Tells x m R H)
    (done : ∀ a bs c, R a bs c → R' a bs c)
    (failed : ∀ frames typePath bs, H frames typePath bs → H' frames typePath bs) :
    Tells x m R' H' := by
  refine Meets.imp h ?_ ?_ fun _ _ => id
  · rintro a m' ⟨bs, c, hR, gains⟩
    exact ⟨bs, c, done a bs c hR, gains⟩
  · intro e m' missing t typePath he
    obtain ⟨frames, bs, hH, place, written⟩ := missing t typePath he
    exact ⟨frames, bs, failed frames typePath bs hH, place, written⟩

/-- What is written by one computation after another. -/
theorem bind {x : AttemptTo ω WriteError α} {f : α → AttemptTo ω WriteError β}
    {R' : β → List UInt8 → Memory → Prop} (first : Tells x m R H)
    (next : ∀ a bs m', R a bs m'.memory → m'.trace = m.trace →
      Tells (f a) m' (fun b cs => R' b (bs ++ cs)) fun frames typePath cs =>
        H frames typePath (bs ++ cs)) :
    Tells (x >>= f) m R' H := by
  refine meets_bind.2 (Meets.imp first ?_ (fun _ _ => id) fun _ _ => id)
  rintro a m₁ ⟨bs, c, hR, gains⟩
  refine Meets.imp (next a bs m₁ (gains.memory ▸ hR) gains.trace) ?_ ?_ fun _ _ => id
  · rintro b m₂ ⟨cs, c', hR', gains'⟩
    exact ⟨bs ++ cs, c', hR', gains.trans gains'⟩
  · intro e m₂ missing t typePath he
    obtain ⟨frames, cs, hH, place, written⟩ := missing t typePath he
    refine ⟨frames, bs ++ cs, hH, place.trans (gains.trace ▸ rfl), ?_⟩
    rw [written, gains.written, List.append_assoc]

/-- The frame is part of the place. -/
theorem framed {x : AttemptTo ω WriteError α} {f : Frame}
    (h : Tells x (m.enter f) R fun frames => H (frames ++ [f])) : Tells (framed f x) m R H := by
  refine meets_framed.2 (Meets.imp h ?_ ?_ fun _ _ => id)
  · rintro a m' ⟨bs, c, hR, gains⟩
    exact ⟨bs, c, hR, gains.leave⟩
  · intro e m' missing t typePath he
    obtain ⟨frames, bs, hH, place, written⟩ := missing t typePath he
    exact ⟨frames ++ [f], bs, hH, place.trans (List.append_cons ..), written⟩

theorem discard {x : AttemptTo ω WriteError α} {R' : Unit → List UInt8 → Memory → Prop}
    (h : Tells x m (fun _ => R' ()) H) : Tells (discard x) m R' H :=
  meets_discard.2 (Meets.imp h (fun _ _ => id) (fun _ _ => id) fun _ _ => id)

end Tells

theorem tells_pure {a : α} (h : R a [] m.memory) : Tells (pure a) m R H :=
  (meets_pure a).2 ⟨[], m.memory, h, .refl m⟩

/-- A failure of any other kind. -/
theorem tells_throw {e : WriteError} (other : ∀ t typePath, e ≠ .missingCodec t typePath) :
    Tells (throw e) m R H :=
  (meets_throw e).2 fun t typePath he => absurd he (other t typePath)

theorem tells_failAt {reason : Trace → WriteError}
    (other : ∀ t typePath, reason m.trace ≠ .missingCodec t typePath) :
    Tells (failAt reason) m R H :=
  (meets_failAt reason).2 fun t typePath he => absurd he (other t typePath)

theorem tells_trace {R : Trace → List UInt8 → Memory → Prop} (h : R m.trace [] m.memory) :
    Tells (liftM Pass.trace) m R H :=
  meets_trace.2 ⟨[], m.memory, h, .refl m⟩

theorem tells_log {R : Unit → List UInt8 → Memory → Prop} {line : LogLine}
    (h : R () [] m.memory) : Tells (liftM (log line)) m R H :=
  (meets_log line).2 ⟨[], m.memory, h, (List.append_nil _).symm, rfl, rfl⟩

theorem tells_get {R : Machine ω → List UInt8 → Memory → Prop} (h : R m [] m.memory) :
    Tells (getThe (Machine ω)) m R H :=
  meets_get.2 ⟨[], m.memory, h, .refl m⟩

theorem tells_emit {R : Unit → List UInt8 → Memory → Prop} {p : Primitive}
    (h : R () p.encoding m.memory) : Tells (emit p) m R H := by
  refine (meets_emit p).2 ?_
  rcases run : Encoder.write p m.encoder with ⟨⟨⟩, encoder⟩ | ⟨source, encoder⟩
  · exact ⟨p.encoding, m.memory, h, Encoder.write_ok run, rfl, rfl⟩
  · exact nofun

theorem tells_unwrap {R : Option Value → List UInt8 → Memory → Prop} {env : Env}
    {frame : List Frame} {v : Option Value}
    (h : ∀ w c, m.memory.Unwraps env v w c → R w [] c) : Tells (unwrap env frame v) m R H := by
  refine (meets_unwrap env frame v).2 ?_
  rcases run : (Value.unwrap env.decls v).run m.store with ⟨source | w, store⟩ | ⟨reason, store⟩
  · exact nofun
  · exact ⟨[], { m.memory with store }, h w _ ⟨run, rfl⟩, (List.append_nil _).symm, rfl, rfl⟩
  · trivial

theorem tells_actionFor {R : Option Action → List UInt8 → Memory → Prop} {env : Env}
    {v : Option Value} (h : ∀ a c, m.memory.Chooses env v a c → R a [] c) :
    Tells (liftM (actionFor env v)) m R H := by
  refine meets_lift.2 ?_
  have spec := actionFor_spec env v m
  rcases run : actionFor env v m with ⟨a, m'⟩ | ⟨reason, m'⟩ <;> rw [run] at spec
  · obtain ⟨chooses, changes⟩ := spec
    refine ⟨[], m'.memory, h a _ chooses, ?_, rfl, ?_⟩
    · rw [changes, List.append_nil]
      rfl
    · rw [changes]
  · trivial

theorem tells_writer? {R : Option Descriptor → List UInt8 → Memory → Prop} {env : Env}
    {type : TypeId} (h : ∀ d beans, Beans.writer? env.decls type m.beans = .ok d beans →
      R d [] { m.memory with beans }) : Tells (liftM (writer? env type)) m R H := by
  refine (meets_writer? env type).2 ?_
  rcases run : Beans.writer? env.decls type m.beans with ⟨d, beans⟩ | ⟨reason, beans⟩
  · exact ⟨[], { m.memory with beans }, h d beans run, (List.append_nil _).symm, rfl, rfl⟩
  · trivial

end Pass

/-! ### Where rows come to an obstacle -/

/-- Where the write of an element ends for want of a codec: there, or inside of it. -/
inductive ElementHalts (env : Env) (n : Nat) (c : Memory) (v : Value) :
    Trace → String → List UInt8 → Prop
  | here {w c₁ c₂} (unwraps : c.Unwraps env (some v) (some w) c₁)
      (nothing : c₁.Chooses env (some w) none c₂) :
      ElementHalts env n c v [] (w.typePath env.decls) []
  | inside {w c₁ a c₂ o} (unwraps : c.Unwraps env (some v) w c₁)
      (chooses : c₁.Chooses env w (some a) c₂) (stops : Stops env n c₂ a o) :
      ElementHalts env n c v o.trace o.typePath o.bytes

/-- Where the write of elements ends for want of a codec, the first of which has this index. -/
inductive RowHalts (env : Env) (n : Nat) (c : Memory) (index : Nat) :
    List Value → Trace → String → List UInt8 → Prop
  | element {before v forms c₁ frames typePath bs} (after : List Value)
      (row : RowSpells env n c before forms c₁)
      (halts : ElementHalts env n c₁ v frames typePath bs) :
      RowHalts env n c index (before ++ v :: after)
        (frames ++ [.element (index + before.length)]) typePath (forms.flatten ++ bs)

section Rows

variable {env : Env} {n : Nat} {c c₁ c₂ c₃ : Memory} {w : Option Value} {a : Action}

/-- One more element in front. -/
theorem RowHalts.cons {index : Nat} {v : Value} {vs : List Value} {frames : Trace}
    {typePath : String} {bs more : List UInt8} (unwraps : c.Unwraps env (some v) w c₁)
    (chooses : c₁.Chooses env w (some a) c₂) (spells : Spells env n c₂ a bs c₃)
    (halts : RowHalts env n c₃ (index + 1) vs frames typePath more) :
    RowHalts env n c index (v :: vs) frames typePath (bs ++ more) := by
  cases halts with
  | @element before u forms c₄ frames typePath bs' after row halts =>
    have further : RowHalts env n c index ((v :: before) ++ u :: after) _ _ _ :=
      .element after (.cons unwraps chooses spells row) halts
    rw [List.length_cons, Nat.add_comm before.length, ← Nat.add_assoc, List.flatten_cons,
      List.append_assoc] at further
    exact further

/-- A sequence stops where its elements do. -/
theorem RowHalts.exists_stops {items : List Value} {frames : Trace} {typePath : String}
    {bs : List UInt8} (halts : RowHalts env n c 0 items frames typePath bs) :
    ∃ o, Stops env n c (.sequence items) o ∧ frames = o.trace ∧ typePath = o.typePath ∧
      (Action.sequence items).mark ++ ((Primitive.len items.length).encoding ++ bs) = o.bytes := by
  cases halts with
  | @element before v forms c₁ frames typePath bs after row halts =>
    rw [Nat.zero_add]
    cases halts with
    | here unwraps nothing =>
      refine ⟨_, .here after rfl row unwraps nothing, rfl, rfl, ?_⟩
      rw [List.append_nil]
      rfl
    | @inside w c₂ a c₃ o unwraps chooses stops =>
      refine ⟨_, .element after rfl row unwraps chooses stops, rfl, rfl, ?_⟩
      simp only [Obstacle.bytes_behind, List.append_assoc]

variable {d : Descriptor} {v : Value} {f : Field} {fs : List Field} {o : Obstacle}

/-- One more field in front, that is left out. -/
theorem FieldsStop.omitted (lenient : env.settings.missing = .warn) (named : f.name ≠ "")
    (effective : c.Effective env d v f w c₁) (nothing : c₁.Chooses env w none c₂)
    (stops : FieldsStop env n c₂ d v fs o) : FieldsStop env n c d v (f :: fs) o := by
  cases stops with
  | field after split fields named' effective' chooses stops =>
    exact .field after (congrArg (f :: ·) split) (.omitted lenient named effective nothing fields)
      named' effective' chooses stops

/-- One more field in front, that is written. -/
theorem FieldsStop.written {bs : List UInt8} (named : f.name ≠ "")
    (effective : c.Effective env d v f w c₁) (chooses : c₁.Chooses env w (some a) c₂)
    (spells : Spells env n c₂ a bs c₃) (stops : FieldsStop env n c₃ d v fs o) :
    FieldsStop env n c d v (f :: fs) (o.behind [] ((Primitive.string f.name).encoding ++ bs)) := by
  cases stops with
  | field after split fields named' effective' chooses' stops =>
    rw [Obstacle.behind_behind, List.append_nil, ← List.append_assoc]
    exact .field after (congrArg (f :: ·) split) (.written named effective chooses spells fields)
      named' effective' chooses' stops

end Rows

/-! ### What the operations of a pass tell -/

/-- The form of a property whose value is not deferred: its name and its value, or nothing. -/
inductive PropertySpells (env : Env) (n : Nat) (name : String) (c : Memory) (w : Option Value) :
    List UInt8 → Memory → Prop
  | omitted {c₁} (nothing : c.Chooses env w none c₁) : PropertySpells env n name c w [] c₁
  | written {a c₁ bs c₂} (chooses : c.Chooses env w (some a) c₁)
      (spells : Spells env n c₁ a bs c₂) :
      PropertySpells env n name c w ((Primitive.string name).encoding ++ bs) c₂

/-- The obstacle that a property comes to, whose value is not deferred. -/
inductive PropertyStops (env : Env) (n : Nat) (kind : PropertyKind) (name : String) (c : Memory)
    (w : Option Value) : Obstacle → Prop
  | inside {a c₁ o} (chooses : c.Chooses env w (some a) c₁) (stops : Stops env n c₁ a o) :
      PropertyStops env n kind name c w
        (o.behind [.property kind name] (Primitive.string name).encoding)

/-- The obstacle that an instance `v` of a bean comes to. -/
inductive BeanStops (env : Env) (n : Nat) (c : Memory) (d : Descriptor) (v : Value) :
    Obstacle → Prop
  | inside {o} (within : n < env.settings.maxDepth)
      (stops : FieldsStop env (n + 1) c d v d.fields o) :
      BeanStops env n c d v (o.behind [.bean d.path] [])

/-- Where a write ends for want of a codec: at an obstacle that satisfies `S`. -/
def AtObstacle (S : Obstacle → Prop) (frames : Trace) (typePath : String) (bs : List UInt8) :
    Prop :=
  ∃ o, S o ∧ frames = o.trace ∧ typePath = o.typePath ∧ bs = o.bytes

/-- What is told by the writes one level below. -/
def Nested.Tells {ω : Type} [Output ω] (env : Env) (below : Nested ω) : Prop :=
  ∀ a m, a.Known env →
    Pass.Tells (below.writeWith a) m
      (fun _ bs c => Spells env m.trace.beanDepth m.memory a bs c)
      (AtObstacle (Stops env m.trace.beanDepth m.memory a))

namespace Pass

variable {ω : Type} [Output ω] {env : Env} {below : Nested ω} {m : Machine ω}

theorem tells_writeValue (tells : below.Tells env) (v : Value) :
    Tells (writeValue env below (some v)) m
      (fun _ bs c => ∃ w c₁ a c₂, m.memory.Unwraps env (some v) w c₁ ∧
        c₁.Chooses env w (some a) c₂ ∧ Spells env m.trace.beanDepth c₂ a bs c)
      (ElementHalts env m.trace.beanDepth m.memory v) := by
  refine Tells.bind (tells_unwrap (R := fun w bs c => bs = [] ∧ m.memory.Unwraps env (some v) w c)
    fun w c unwraps => ⟨rfl, unwraps⟩) ?_
  rintro w _ m₁ ⟨rfl, unwraps⟩ place
  refine Tells.bind (tells_actionFor (R := fun a bs c => bs = [] ∧ m₁.memory.Chooses env w a c)
    fun a c chooses => ⟨rfl, chooses⟩) ?_
  rintro a _ m₂ ⟨rfl, chooses⟩ place'
  have around : m₂.trace.beanDepth = m.trace.beanDepth :=
    congrArg Trace.beanDepth (place'.trans place)
  rcases a with _ | a
  · rcases w with _ | w
    · cases chooses
    · refine (meets_failAt _).2 fun t typePath he => ?_
      obtain ⟨rfl, rfl⟩ := WriteError.missingCodec.inj he
      exact ⟨[], [], .here unwraps chooses, rfl, (List.append_nil _).symm⟩
  · refine (tells a m₂ chooses.known).imp (fun _ bs c spells => ?_) ?_
    · exact ⟨w, m₁.memory, a, m₂.memory, unwraps, chooses, around ▸ spells⟩
    · rintro _ _ _ ⟨o, stops, rfl, rfl, rfl⟩
      exact .inside unwraps chooses (around ▸ stops)

theorem tells_writeElements (tells : below.Tells env) (index : Nat) (vs : List Value) :
    Tells (writeElements env below index vs) m
      (fun _ bs c => ∃ forms, bs = forms.flatten ∧
        RowSpells env m.trace.beanDepth m.memory vs forms c)
      (RowHalts env m.trace.beanDepth m.memory index vs) := by
  induction vs generalizing index m with
  | nil => exact tells_pure ⟨[], rfl, .nil _ _⟩
  | cons v vs ih =>
    have first : Tells (framed (.element index) (writeValue env below (some v))) m _
        (RowHalts env m.trace.beanDepth m.memory index (v :: vs)) :=
      Tells.framed ((tells_writeValue tells v).imp (fun _ _ _ => id)
        fun _ _ _ halts => .element vs (.nil _ _) halts)
    refine first.bind ?_
    rintro _ bs m₁ ⟨w, c₁, a, c₂, unwraps, chooses, spells⟩ place
    have around : m₁.trace.beanDepth = m.trace.beanDepth := congrArg Trace.beanDepth place
    refine (ih (m := m₁) (index + 1)).imp ?_ fun _ _ _ halts => ?_
    · rintro _ _ c ⟨forms, rfl, row⟩
      exact ⟨bs :: forms, rfl, .cons unwraps chooses spells (around ▸ row)⟩
    · exact .cons unwraps chooses spells (around ▸ halts)

theorem tells_writeResolvedProperty (tells : below.Tells env)
    (lenient : env.settings.missing = .warn) (kind : PropertyKind) (name : String)
    (w : Option Value) :
    Tells (writeResolvedProperty env below kind name w) m
      (fun _ bs c => PropertySpells env m.trace.beanDepth name m.memory w bs c)
      (AtObstacle (PropertyStops env m.trace.beanDepth kind name m.memory w)) := by
  refine Tells.framed (Tells.bind
    (tells_actionFor (R := fun a bs c => bs = [] ∧ m.memory.Chooses env w a c)
      fun a c chooses => ⟨rfl, chooses⟩) ?_)
  rintro a _ m₁ ⟨rfl, chooses⟩ place
  rcases a with _ | a
  · simp only [omitProperty, lenient]
    refine Tells.bind (tells_trace (R := fun _ bs c => bs = [] ∧ c = m₁.memory) ⟨rfl, rfl⟩) ?_
    rintro _ _ m₂ ⟨rfl, same⟩ _
    refine Tells.bind (tells_log (R := fun _ bs c => bs = [] ∧ c = m₁.memory) ⟨rfl, same⟩) ?_
    rintro _ _ m₃ ⟨rfl, same⟩ _
    exact tells_pure (same ▸ .omitted chooses)
  · refine Tells.bind (tells_emit
      (R := fun _ bs c => bs = (Primitive.string name).encoding ∧ c = m₁.memory) ⟨rfl, rfl⟩) ?_
    rintro _ _ m₂ ⟨rfl, same⟩ place'
    have around : m₂.trace.beanDepth = m.trace.beanDepth := by
      rw [place', place, Machine.trace_enter, Trace.beanDepth_property]
    refine Tells.bind ((tells a m₂ chooses.known).imp (fun _ _ _ => id) ?_) ?_
    · rintro _ _ _ ⟨o, stops, rfl, rfl, rfl⟩
      rw [around, same] at stops
      exact ⟨_, .inside chooses stops, rfl, rfl, (Obstacle.bytes_behind ..).symm⟩
    rintro _ bs m₃ spells _
    rw [around, same] at spells
    -- what follows is for the log only
    refine Tells.bind (tells_trace (R := fun _ bs c => bs = [] ∧ c = m₃.memory) ⟨rfl, rfl⟩) ?_
    rintro _ _ m₄ ⟨rfl, kept⟩ _
    refine Tells.bind (tells_log (R := fun _ bs c => bs = [] ∧ c = m₃.memory) ⟨rfl, kept⟩) ?_
    rintro _ _ m₅ ⟨rfl, kept⟩ _
    refine tells_pure ?_
    simp only [List.nil_append, List.append_nil, kept]
    exact .written chooses spells

theorem tells_writeNextProperty (tells : below.Tells env)
    (lenient : env.settings.missing = .warn) (name : String) (v : Option Value)
    (kind : PropertyKind) :
    Tells (writeNextProperty env below name v kind) m
      (fun _ bs c => name ≠ "" ∧ ∃ w c₁, m.memory.Unwraps env v w c₁ ∧
        PropertySpells env m.trace.beanDepth name c₁ w bs c)
      (AtObstacle fun o => name ≠ "" ∧ ∃ w c₁, m.memory.Unwraps env v w c₁ ∧
        PropertyStops env m.trace.beanDepth kind name c₁ w o) := by
  rw [writeNextProperty]
  split
  · exact tells_failAt nofun
  · rename_i named
    refine Tells.bind (tells_unwrap (R := fun w bs c => bs = [] ∧ m.memory.Unwraps env v w c)
      fun w c unwraps => ⟨rfl, unwraps⟩) ?_
    rintro w _ m₁ ⟨rfl, unwraps⟩ place
    refine (tells_writeResolvedProperty tells lenient kind name w).imp ?_ ?_
    · rintro _ bs c spells
      rw [place] at spells
      exact ⟨named, w, m₁.memory, unwraps, spells⟩
    · rintro _ _ _ ⟨o, stops, rfl, rfl, rfl⟩
      rw [place] at stops
      exact ⟨o, ⟨named, w, m₁.memory, unwraps, stops⟩, rfl, rfl, rfl⟩

theorem tells_writeField (tells : below.Tells env) (lenient : env.settings.missing = .warn)
    (d : Descriptor) (v : Value) (f : Field) :
    Tells (writeField env below d v (d.conventionsOf v) f) m
      (fun _ bs c => f.name ≠ "" ∧ ∃ w c₁, m.memory.Effective env d v f w c₁ ∧
        PropertySpells env m.trace.beanDepth f.name c₁ w bs c)
      (AtObstacle fun o => f.name ≠ "" ∧ ∃ w c₁, m.memory.Effective env d v f w c₁ ∧
        PropertyStops env m.trace.beanDepth .field f.name c₁ w o) := by
  rw [writeField]
  rcases read : d.read f v with _ | raw
  · exact tells_throw nofun
  -- what is told of the property, with a value that is the one of the field
  have property {m₁ : Machine ω} {u : Option Value} (place : m₁.trace = m.trace)
      (effective : ∀ {w c₁}, m₁.memory.Unwraps env u w c₁ → m.memory.Effective env d v f w c₁) :
      Tells (discard (writeNextProperty env below f.name u .field)) m₁
        (fun _ bs c => f.name ≠ "" ∧ ∃ w c₁, m.memory.Effective env d v f w c₁ ∧
          PropertySpells env m.trace.beanDepth f.name c₁ w bs c)
        (AtObstacle fun o => f.name ≠ "" ∧ ∃ w c₁, m.memory.Effective env d v f w c₁ ∧
          PropertyStops env m.trace.beanDepth .field f.name c₁ w o) := by
    rw [← place]
    refine Tells.discard ((tells_writeNextProperty tells lenient f.name u .field).imp ?_ ?_)
    · rintro _ bs c ⟨named, w, c₁, unwraps, spells⟩
      exact ⟨named, w, c₁, effective unwraps, spells⟩
    · rintro _ _ _ ⟨o, ⟨named, w, c₁, unwraps, stops⟩, rfl, rfl, rfl⟩
      exact ⟨o, ⟨named, w, c₁, effective unwraps, stops⟩, rfl, rfl, rfl⟩
  rcases brings : d.conventionsOf v with _ | mapping
  · refine property rfl fun {w c₁} unwraps => ?_
    rcases w with _ | content
    · exact .absent read unwraps brings
    · exact .own read unwraps
  · refine Tells.bind (tells_unwrap
      (R := fun own bs c => bs = [] ∧ m.memory.Unwraps env (some raw) own c)
      fun own c unwraps => ⟨rfl, unwraps⟩) ?_
    rintro own _ m₁ ⟨rfl, unwraps⟩ place
    rcases own with _ | content
    -- an absent value makes room for the convention
    · refine Tells.bind (tells_get (R := fun m₂ bs c => bs = [] ∧ m₂ = m₁ ∧ c = m₁.memory)
        ⟨rfl, rfl, rfl⟩) ?_
      rintro _ _ m₂ ⟨rfl, rfl, same⟩ place'
      refine property (place'.trans place) fun {w c₁} convention => ?_
      rw [same] at convention
      exact .convention read unwraps brings convention
    · refine property place fun {w c₁} again => ?_
      -- the content is unwrapped a second time, which does nothing
      obtain ⟨rfl, rfl⟩ := again.unique (Memory.unwraps_self unwraps.plain)
      exact .own read unwraps

theorem tells_writeFields (tells : below.Tells env) (lenient : env.settings.missing = .warn)
    (d : Descriptor) (v : Value) (fs : List Field) :
    Tells (writeFields env below d v (d.conventionsOf v) fs) m
      (fun _ bs c => FieldsSpell env m.trace.beanDepth m.memory d v fs bs c)
      (AtObstacle (FieldsStop env m.trace.beanDepth m.memory d v fs)) := by
  induction fs generalizing m with
  | nil => exact tells_pure (.nil _ _ d v)
  | cons f fs ih =>
    refine Tells.bind ((tells_writeField tells lenient d v f).imp (fun _ _ _ => id) ?_) ?_
    · rintro _ _ _ ⟨_, ⟨named, w, c₁, effective, ⟨chooses, stops⟩⟩, rfl, rfl, rfl⟩
      exact ⟨_, .field fs rfl (.nil _ _ d v) named effective chooses stops, rfl, rfl, rfl⟩
    rintro _ front m₁ ⟨named, w, c₁, effective, first⟩ place
    have around : m₁.trace.beanDepth = m.trace.beanDepth := congrArg Trace.beanDepth place
    refine (ih (m := m₁)).imp (fun _ bs c fields => ?_) ?_
    · rw [around] at fields
      cases first with
      | omitted nothing => exact .omitted lenient named effective nothing fields
      | written chooses spells => exact .written named effective chooses spells fields
    · rintro _ _ _ ⟨o, stops, rfl, rfl, rfl⟩
      rw [around] at stops
      cases first with
      | omitted nothing => exact ⟨o, .omitted lenient named effective nothing stops, rfl, rfl, rfl⟩
      | written chooses spells =>
        exact ⟨_, .written named effective chooses spells stops, (List.append_nil _).symm, rfl,
          (Obstacle.bytes_behind ..).symm⟩

theorem tells_writeFieldsOf (tells : below.Tells env) (lenient : env.settings.missing = .warn)
    (d : Descriptor) (v : Value) :
    Tells (writeFieldsOf env below d v) m
      (fun _ bs c => m.trace.beanDepth < env.settings.maxDepth ∧
        ∃ body, bs = body ++ (Primitive.string "").encoding ∧
          FieldsSpell env (m.trace.beanDepth + 1) m.memory d v d.fields body c)
      (AtObstacle (BeanStops env m.trace.beanDepth m.memory d v)) := by
  rw [writeFieldsOf]
  refine Tells.bind (tells_trace
    (R := fun t bs c => bs = [] ∧ c = m.memory ∧ t = m.trace) ⟨rfl, rfl, rfl⟩) ?_
  rintro t _ m₁ ⟨rfl, same, rfl⟩ place
  split
  · exact tells_failAt nofun
  · rename_i within
    have within : m.trace.beanDepth < env.settings.maxDepth := Nat.lt_of_not_le within
    have around : (m₁.enter (.bean d.path)).trace.beanDepth = m.trace.beanDepth + 1 := by
      rw [Machine.trace_enter, Trace.beanDepth_bean, place]
    refine Tells.framed (Tells.bind
      ((tells_writeFields tells lenient d v d.fields).imp (fun _ _ _ => id) ?_) ?_)
    · rintro _ _ _ ⟨o, stops, rfl, rfl, rfl⟩
      rw [around, Machine.memory_enter, same] at stops
      exact ⟨_, .inside within stops, rfl, rfl, (Obstacle.bytes_behind ..).symm⟩
    rintro _ body m₂ fields _
    rw [around, Machine.memory_enter, same] at fields
    exact tells_emit ⟨within, body, rfl, fields⟩

/-- A codec that only writes has no failures of nested writes to tell of. -/
theorem tells_writePayload_codec {e : Entry} {v : Value} (plain : (e.codec v).Plain) :
    Tells (writePayload env below (.codec e v)) m
      (fun _ bs c => v.typeId = e.type ∧ (e.codec v).Spells bs ∧ c = m.memory) H := by
  by_cases own : v.typeId = e.type
  · obtain ⟨pieces, ending, notNested, run⟩ := plain.exists_pieces
    rw [Tells, Meets, run_writePayload_codec own notNested (run env below m), payloadEnding]
    rcases written : writePieces pieces m.encoder with ⟨⟨⟩, encoder⟩ | ⟨source, encoder⟩
    · rcases ending with reason | ⟨⟩
      · intro t typePath he
        cases he
      · have gains : m.Gains pieces.flatten m.memory { m with encoder } :=
          ⟨written_of_writePieces written, rfl, rfl⟩
        exact ⟨pieces.flatten, m.memory, ⟨own, ⟨pieces, rfl, run⟩, rfl⟩, gains⟩
    · intro t typePath he
      cases he
  · rw [Tells, Meets, run_writePayload_wrongType own m]
    intro t typePath he
    cases he

theorem tells_writeWith (tells : below.Tells env) (lenient : env.settings.missing = .warn)
    (plain : env.codecs.Plain) {a : Action} (known : a.Known env) :
    Tells (writeWith env below a) m
      (fun _ bs c => Spells env m.trace.beanDepth m.memory a bs c)
      (AtObstacle (Stops env m.trace.beanDepth m.memory a)) := by
  refine Tells.bind (tells_emit (R := fun _ bs c => bs = a.mark ∧ c = m.memory) ⟨rfl, rfl⟩) ?_
  rintro _ _ m₁ ⟨rfl, same⟩ place
  have around : m₁.trace.beanDepth = m.trace.beanDepth := congrArg Trace.beanDepth place
  cases a with
  | null =>
    refine tells_pure ?_
    rw [List.append_nil, same]
    exact .null _ _
  | codec e v =>
    refine (tells_writePayload_codec (plain known v)).imp ?_ fun _ _ _ => id
    rintro _ bs c ⟨own, spells, rfl⟩
    rw [same]
    exact .codec own spells
  | bean d v =>
    refine Tells.bind (tells_emit
      (R := fun _ bs c => bs = (Primitive.string d.path).encoding ∧ c = m.memory) ⟨rfl, same⟩) ?_
    rintro _ _ m₂ ⟨rfl, same⟩ place'
    have around : m₂.trace.beanDepth = m.trace.beanDepth :=
      congrArg Trace.beanDepth (place'.trans place)
    rw [← same, ← around]
    refine (tells_writeFieldsOf tells lenient d v).imp ?_ ?_
    · rintro _ _ c ⟨within, body, rfl, fields⟩
      exact .bean within fields
    · rintro _ _ _ ⟨_, ⟨within, stops⟩, rfl, rfl, rfl⟩
      refine ⟨_, .bean within stops, rfl, rfl, ?_⟩
      simp only [Obstacle.bytes_behind, List.nil_append, List.append_assoc]
  | sequence items =>
    refine Tells.bind (tells_emit
      (R := fun _ bs c => bs = (Primitive.len items.length).encoding ∧ c = m.memory)
      ⟨rfl, same⟩) ?_
    rintro _ _ m₂ ⟨rfl, same⟩ place'
    have around : m₂.trace.beanDepth = m.trace.beanDepth :=
      congrArg Trace.beanDepth (place'.trans place)
    rw [← same, ← around]
    refine (tells_writeElements tells 0 items).imp ?_ fun _ _ _ halts => halts.exists_stops
    rintro _ _ c ⟨forms, rfl, row⟩
    exact .sequence row

/-- The writes of every level tell what was spelled, and where they stopped. -/
theorem tells_ofDepth (lenient : env.settings.missing = .warn) (plain : env.codecs.Plain)
    (depth : Nat) : (Nested.ofDepth env depth : Nested ω).Tells env := by
  induction depth with
  | zero => exact fun _ _ _ => trivial
  | succ depth ih => exact fun _ _ known => tells_writeWith ih lenient plain known

/-- The obstacle that the pass over a bean comes to, where it begins on `m`. -/
def BeanObstacle (env : Env) (m : Machine ω) (v : Value) (o : Obstacle) : Prop :=
  ∃ d beans, Beans.writer? env.decls v.typeId m.beans = .ok (some d) beans ∧
    BeanStops env m.trace.beanDepth { m.memory with beans } d v o

/-- Where the write of a bean ends for want of a codec. -/
theorem tells_writeBean (lenient : env.settings.missing = .warn) (plain : env.codecs.Plain)
    (depth : Nat) (v : Value) :
    Tells (writeBean env (.ofDepth env depth) v) m (fun _ _ _ => True)
      (AtObstacle (BeanObstacle env m v)) := by
  refine Tells.bind (tells_writer? (R := fun d bs c => bs = [] ∧ ∃ beans,
    Beans.writer? env.decls v.typeId m.beans = .ok d beans ∧ c = { m.memory with beans })
    fun d beans found => ⟨rfl, beans, found, rfl⟩) ?_
  rintro d _ m₁ ⟨rfl, beans, found, same⟩ place
  rcases d with _ | d
  · exact tells_throw nofun
  · refine (tells_writeFieldsOf (tells_ofDepth lenient plain depth) lenient d v).imp
      (fun _ _ _ _ => trivial) ?_
    rintro _ _ _ ⟨o, stops, same'⟩
    rw [same, place] at stops
    exact ⟨o, ⟨d, beans, found, stops⟩, same'⟩

end Pass

end BeanStream
