import BeanStream.Proofs.Pass.Chronicle

/-!
# What a pass logs

`Reports x m P`: run on the machine `m`, the computation `x` adds bytes to the output and lines to
the log, and takes none away. Whatever becomes of it, what it adds satisfies `P`, along with the
answer and what is remembered, if there is an answer.

Main fact: whatever becomes of a call, the bytes that were written and the lines that were logged
are those of **one tree**, which is the one that the value leaves (`reports_call`). That is shown
for every operation of a pass in turn, given that it holds of the writes one level below
(`Nested.Reports`), and then for every depth (`reports_ofDepth`).
-/

namespace BeanStream

open Wire Encoder

namespace Machine

/-- From `m` on, these bytes were written, and these lines logged. -/
structure Grows (m : Machine) (bs : List UInt8) (lines : List LogLine) (m' : Machine) : Prop where
  written : m'.written = m.written ++ bs
  logs : m'.logs = m.logs ++ lines

variable {m m₁ m₂ : Machine} {bs cs : List UInt8} {lines more : List LogLine}

theorem Grows.nothing (written : m₁.written = m.written) (logs : m₁.logs = m.logs) :
    m.Grows [] [] m₁ :=
  ⟨by rw [written, List.append_nil], by rw [logs, List.append_nil]⟩

theorem Grows.trans (h : m.Grows bs lines m₁) (h' : m₁.Grows cs more m₂) :
    m.Grows (bs ++ cs) (lines ++ more) m₂ :=
  ⟨by rw [h'.written, h.written, List.append_assoc], by rw [h'.logs, h.logs, List.append_assoc]⟩

/-- The frame is taken off behind the body. -/
theorem Grows.leave {f : Frame} (h : (m.enter f).Grows bs lines m₁) : m.Grows bs lines m₁.leave :=
  ⟨h.written, h.logs⟩

end Machine

/-! ### The value of a field -/

namespace Memory

variable {env : Env} {c c₁ c' : Memory} {d : Descriptor} {v raw : Value} {f : Field}
  {w : Option Value}

/-- Without conventions, the value of a field is its own one. -/
theorem effective_iff_unwraps (read : d.read f v = some raw) (brings : d.conventionsOf v = none) :
    c.Effective env d v f w c' ↔ c.Unwraps env (some raw) w c' := by
  constructor
  · rintro (⟨read', unwraps⟩ | ⟨read', unwraps, -⟩ | ⟨-, -, brings', -⟩)
    · cases read.symm.trans read'
      exact unwraps
    · cases read.symm.trans read'
      exact unwraps
    · cases brings.symm.trans brings'
  · intro unwraps
    rcases w with _ | content
    · exact .absent read unwraps brings
    · exact .own read unwraps

/-- A value that is there is not changed by unwrapping it a second time. -/
theorem effective_iff_content (read : d.read f v = some raw) {content : Value}
    (unwraps : c.Unwraps env (some raw) (some content) c₁) :
    c.Effective env d v f w c' ↔ c₁.Unwraps env (some content) w c' := by
  have again : c₁.Unwraps env (some content) (some content) c₁ := unwraps_self unwraps.plain
  constructor
  · intro effective
    obtain ⟨rfl, rfl⟩ := effective.unique (.own read unwraps)
    exact again
  · intro unwraps'
    obtain ⟨rfl, rfl⟩ := unwraps'.unique again
    exact .own read unwraps

/-- An absent value makes room for the convention. -/
theorem effective_iff_convention (read : d.read f v = some raw)
    (unwraps : c.Unwraps env (some raw) none c₁) {mapping : Nat}
    (brings : d.conventionsOf v = some mapping) :
    c.Effective env d v f w c' ↔
      c₁.Unwraps env (c₁.store.conventionValue mapping f.name) w c' := by
  constructor
  · rintro (⟨read', unwraps'⟩ | ⟨-, -, brings'⟩ | ⟨read', unwraps', brings', convention⟩)
    · cases read.symm.trans read'
      cases (unwraps.unique unwraps').1
    · cases brings.symm.trans brings'
    · cases read.symm.trans read'
      cases brings.symm.trans brings'
      obtain ⟨-, rfl⟩ := unwraps.unique unwraps'
      exact convention
  · exact fun convention => .convention read unwraps brings convention

/-- A field whose own value does not unwrap has no value. -/
theorem not_effective
    (read : ∀ raw, d.read f v = some raw → ∀ w c', ¬ c.Unwraps env (some raw) w c') :
    ¬ c.Effective env d v f w c' := by
  rintro (⟨found, unwraps⟩ | ⟨found, unwraps, -⟩ | ⟨found, unwraps, -, -⟩)
  all_goals exact read _ found _ _ unwraps

end Memory

namespace Pass

/-! ### What a computation reports -/

variable {α β : Type} {m : Machine}

/-- Whatever becomes of a computation, the bytes and lines that it adds satisfy `P`, along with the
answer and what is remembered, if there is an answer. -/
def Reports (x : Attempt WriteError α) (m : Machine)
    (P : List UInt8 → List LogLine → Option (α × Memory) → Prop) : Prop :=
  Meets x m
    { done := fun a m' => ∃ bs lines, m.Grows bs lines m' ∧ m'.trace = m.trace ∧
        P bs lines (some (a, m'.memory))
      failed := fun _ m' => ∃ bs lines, m.Grows bs lines m' ∧ P bs lines none
      aborted := fun _ m' => ∃ bs lines, m.Grows bs lines m' ∧ P bs lines none }

variable {P : List UInt8 → List LogLine → Option (α × Memory) → Prop}

namespace Reports

theorem imp {x : Attempt WriteError α} {Q : List UInt8 → List LogLine → Option (α × Memory) → Prop}
    (h : Reports x m P) (weaker : ∀ bs lines r, P bs lines r → Q bs lines r) : Reports x m Q := by
  refine Meets.imp h ?_ ?_ ?_
  · rintro a m' ⟨bs, lines, grows, place, hP⟩
    exact ⟨bs, lines, grows, place, weaker _ _ _ hP⟩
  · rintro e m' ⟨bs, lines, grows, hP⟩
    exact ⟨bs, lines, grows, weaker _ _ _ hP⟩
  · rintro reason m' ⟨bs, lines, grows, hP⟩
    exact ⟨bs, lines, grows, weaker _ _ _ hP⟩

/-- What is added by one computation after another. -/
theorem bind {x : Attempt WriteError α} {f : α → Attempt WriteError β}
    {Q : List UInt8 → List LogLine → Option (β × Memory) → Prop} (first : Reports x m P)
    (stops : ∀ bs lines, P bs lines none → Q bs lines none)
    (next : ∀ bs lines a m₁, P bs lines (some (a, m₁.memory)) → m₁.trace = m.trace →
      Reports (f a) m₁ fun cs more => Q (bs ++ cs) (lines ++ more)) :
    Reports (x >>= f) m Q := by
  refine meets_bind.2 (Meets.imp first ?_ ?_ ?_)
  · rintro a m₁ ⟨bs, lines, grows, place, hP⟩
    refine Meets.imp (next bs lines a m₁ hP place) ?_ ?_ ?_
    · rintro b m₂ ⟨cs, more, grows', place', hQ⟩
      exact ⟨_, _, grows.trans grows', place'.trans place, hQ⟩
    · rintro e m₂ ⟨cs, more, grows', hQ⟩
      exact ⟨_, _, grows.trans grows', hQ⟩
    · rintro reason m₂ ⟨cs, more, grows', hQ⟩
      exact ⟨_, _, grows.trans grows', hQ⟩
  · rintro e m' ⟨bs, lines, grows, hP⟩
    exact ⟨bs, lines, grows, stops _ _ hP⟩
  · rintro reason m' ⟨bs, lines, grows, hP⟩
    exact ⟨bs, lines, grows, stops _ _ hP⟩

/-- A frame adds nothing. -/
theorem framed {x : Attempt WriteError α} {f : Frame} (h : Reports x (m.enter f) P) :
    Reports (framed f x) m P := by
  refine meets_framed.2 (Meets.imp h ?_ ?_ ?_)
  · rintro a m' ⟨bs, lines, grows, place, hP⟩
    exact ⟨bs, lines, grows.leave, Machine.trace_leave_of_enter place, hP⟩
  · rintro e m' ⟨bs, lines, grows, hP⟩
    exact ⟨bs, lines, grows.leave, hP⟩
  · rintro reason m' ⟨bs, lines, grows, hP⟩
    exact ⟨bs, lines, ⟨grows.written, grows.logs⟩, hP⟩

theorem discard {x : Attempt WriteError α}
    {Q : List UInt8 → List LogLine → Option (Unit × Memory) → Prop}
    (h : Reports x m fun bs lines r => Q bs lines (r.map fun r => ((), r.2))) :
    Reports (discard x) m Q :=
  meets_discard.2 (Meets.imp h (fun _ _ => id) (fun _ _ => id) fun _ _ => id)

end Reports

theorem reports_pure {a : α} (h : P [] [] (some (a, m.memory))) : Reports (pure a) m P :=
  (meets_pure a).2 ⟨[], [], .nothing rfl rfl, rfl, h⟩

theorem reports_throw {e : WriteError} (h : P [] [] none) :
    Reports (throw e : Attempt WriteError α) m P :=
  (meets_throw e).2 ⟨[], [], .nothing rfl rfl, h⟩

theorem reports_failAt {reason : Trace → WriteError} (h : P [] [] none) :
    Reports (failAt reason : Attempt WriteError α) m P :=
  (meets_failAt reason).2 ⟨[], [], .nothing rfl rfl, h⟩

theorem reports_abort {reason : Abort} (h : P [] [] none) :
    Reports (abort reason : Attempt WriteError α) m P :=
  (meets_abort reason).2 ⟨[], [], .nothing rfl rfl, h⟩

theorem reports_trace {P : List UInt8 → List LogLine → Option (Trace × Memory) → Prop}
    (h : P [] [] (some (m.trace, m.memory))) : Reports (liftM Pass.trace) m P :=
  meets_trace.2 ⟨[], [], .nothing rfl rfl, rfl, h⟩

theorem reports_get {P : List UInt8 → List LogLine → Option (Machine × Memory) → Prop}
    (h : P [] [] (some (m, m.memory))) : Reports (getThe Machine) m P :=
  meets_get.2 ⟨[], [], .nothing rfl rfl, rfl, h⟩

theorem reports_log {P : List UInt8 → List LogLine → Option (Unit × Memory) → Prop} {line : LogLine}
    (h : P [] [line] (some ((), m.memory))) : Reports (liftM (log line)) m P :=
  (meets_log line).2 ⟨[], [line], ⟨(List.append_nil _).symm, rfl⟩, rfl, h⟩

/-- All of an item, or a part of it. -/
theorem reports_emit {P : List UInt8 → List LogLine → Option (Unit × Memory) → Prop} {p : Primitive}
    (done : P p.encoding [] (some ((), m.memory)))
    (cut : ∀ part, Cut part p.encoding → P part [] none) :
    Reports (emit p) m P := by
  refine (meets_emit p).2 ?_
  rcases run : Encoder.write p m.encoder with ⟨⟨⟩, encoder⟩ | ⟨source, encoder⟩
  · exact ⟨p.encoding, [], ⟨write_ok run, (List.append_nil _).symm⟩, rfl, done⟩
  · obtain ⟨part, isCut, written⟩ := exists_cut_of_writePieces failsShort run
    exact ⟨part, [], ⟨written, (List.append_nil _).symm⟩, cut part isCut⟩

theorem reports_unwrap {P : List UInt8 → List LogLine → Option (Option Value × Memory) → Prop}
    {env : Env} {frame : List Frame} {v : Option Value}
    (done : ∀ w c, m.memory.Unwraps env v w c → P [] [] (some (w, c)))
    (failed : (∀ w c, ¬ m.memory.Unwraps env v w c) → P [] [] none) :
    Reports (unwrap env frame v) m P := by
  refine (meets_unwrap env frame v).2 ?_
  rcases run : (Value.unwrap env.decls v).run m.store with ⟨source | w, store⟩ | ⟨reason, store⟩
  · refine ⟨[], [], .nothing rfl rfl, failed fun w c unwraps => ?_⟩
    cases run.symm.trans unwraps.1
  · exact ⟨[], [], .nothing rfl rfl, rfl, done w { m.memory with store } ⟨run, rfl⟩⟩
  · refine ⟨[], [], .nothing rfl rfl, failed fun w c unwraps => ?_⟩
    cases run.symm.trans unwraps.1

theorem reports_actionFor {P : List UInt8 → List LogLine → Option (Option Action × Memory) → Prop}
    {env : Env} {v : Option Value}
    (done : ∀ a c, m.memory.Chooses env v a c → P [] [] (some (a, c)))
    (failed : (∀ a c, ¬ m.memory.Chooses env v a c) → P [] [] none) :
    Reports (liftM (actionFor env v)) m P := by
  refine meets_lift.2 ?_
  have spec := actionFor_spec env v m
  rcases run : actionFor env v m with ⟨a, m'⟩ | ⟨reason, m'⟩ <;> rw [run] at spec
  · obtain ⟨chooses, changes⟩ := spec
    refine ⟨[], [], ?_, ?_, done a _ chooses⟩
    · rw [changes]
      exact .nothing rfl rfl
    · rw [changes]
  · refine ⟨[], [], ?_, failed fun a c chooses => ?_⟩
    · have changes : m' = { m with beans := m'.beans } := spec
      rw [changes]
      exact .nothing rfl rfl
    · have found := (actionFor_of_chooses chooses).1
      cases run.symm.trans found

theorem reports_writer? {P : List UInt8 → List LogLine → Option (Option Descriptor × Memory) → Prop}
    {env : Env} {type : TypeId}
    (done : ∀ d beans, Beans.writer? env.decls type m.beans = .ok d beans →
      P [] [] (some (d, { m.memory with beans })))
    (failed : (∀ d beans, Beans.writer? env.decls type m.beans ≠ .ok d beans) → P [] [] none) :
    Reports (liftM (writer? env type)) m P := by
  refine (meets_writer? env type).2 ?_
  rcases run : Beans.writer? env.decls type m.beans with ⟨d, beans⟩ | ⟨reason, beans⟩
  · exact ⟨[], [], .nothing rfl rfl, rfl, done d beans run⟩
  · exact ⟨[], [], .nothing rfl rfl, failed fun d beans found => nomatch run.symm.trans found⟩

section Bind

variable {env : Env} {Q : List UInt8 → List LogLine → Option (β × Memory) → Prop}

/-- What follows an item that is written. -/
theorem reports_emit_bind {p : Primitive} {f : Unit → Attempt WriteError β}
    (cut : ∀ part, Cut part p.encoding → Q part [] none)
    (next : ∀ m₁, m₁.memory = m.memory → m₁.trace = m.trace →
      Reports (f ()) m₁ fun bs => Q (p.encoding ++ bs)) : Reports (emit p >>= f) m Q := by
  refine Reports.bind (reports_emit (P := fun bs lines r => lines = [] ∧ match r with
      | some (_, c) => bs = p.encoding ∧ c = m.memory
      | none => Cut bs p.encoding) ⟨rfl, rfl, rfl⟩ fun part isCut => ⟨rfl, isCut⟩) ?_ ?_
  · rintro bs _ ⟨rfl, isCut⟩
    exact cut bs isCut
  · rintro _ _ _ m₁ ⟨rfl, rfl, same⟩ place
    exact next m₁ same place

/-- What follows an unwrapping. -/
theorem reports_unwrap_bind {frame : List Frame} {v : Option Value}
    {f : Option Value → Attempt WriteError β}
    (failed : (∀ w c, ¬ m.memory.Unwraps env v w c) → Q [] [] none)
    (next : ∀ w m₁, m.memory.Unwraps env v w m₁.memory → m₁.trace = m.trace →
      Reports (f w) m₁ Q) : Reports (unwrap env frame v >>= f) m Q := by
  refine Reports.bind (reports_unwrap (P := fun bs lines r => bs = [] ∧ lines = [] ∧ match r with
      | some (w, c) => m.memory.Unwraps env v w c
      | none => ∀ w c, ¬ m.memory.Unwraps env v w c)
    (fun w c unwraps => ⟨rfl, rfl, unwraps⟩) fun never => ⟨rfl, rfl, never⟩) ?_ ?_
  · rintro _ _ ⟨rfl, rfl, never⟩
    exact failed never
  · rintro _ _ w m₁ ⟨rfl, rfl, unwraps⟩ place
    exact next w m₁ unwraps place

/-- What follows the search for a way to write a value. -/
theorem reports_actionFor_bind {v : Option Value} {f : Option Action → Attempt WriteError β}
    (failed : (∀ a c, ¬ m.memory.Chooses env v a c) → Q [] [] none)
    (next : ∀ a m₁, m.memory.Chooses env v a m₁.memory → m₁.trace = m.trace →
      Reports (f a) m₁ Q) : Reports (liftM (actionFor env v) >>= f) m Q := by
  refine Reports.bind (reports_actionFor (P := fun bs lines r => bs = [] ∧ lines = [] ∧ match r with
      | some (a, c) => m.memory.Chooses env v a c
      | none => ∀ a c, ¬ m.memory.Chooses env v a c)
    (fun a c chooses => ⟨rfl, rfl, chooses⟩) fun never => ⟨rfl, rfl, never⟩) ?_ ?_
  · rintro _ _ ⟨rfl, rfl, never⟩
    exact failed never
  · rintro _ _ a m₁ ⟨rfl, rfl, chooses⟩ place
    exact next a m₁ chooses place

/-- What is reported of an answer, after a line that tells of it. -/
theorem reports_log_return {line : Trace → LogLine} {b : β}
    (h : Q [] [line m.trace] (some (b, m.memory))) :
    Reports (do log (ω := Encoder) (line (← Pass.trace (ω := Encoder))); return b) m Q := by
  refine Reports.bind (reports_trace (P := fun bs lines r => bs = [] ∧ lines = [] ∧
    r = some (m.trace, m.memory)) ⟨rfl, rfl, rfl⟩) (by rintro _ _ ⟨-, -, ⟨⟩⟩) ?_
  rintro _ _ t m₁ ⟨rfl, rfl, found⟩ _
  obtain ⟨rfl, same⟩ := Prod.mk.inj (Option.some.inj found)
  refine Reports.bind (reports_log (P := fun bs lines r => bs = [] ∧ lines = [line m.trace] ∧
    r = some ((), m₁.memory)) ⟨rfl, rfl, rfl⟩) (by rintro _ _ ⟨-, -, ⟨⟩⟩) ?_
  rintro _ _ _ m₂ ⟨rfl, rfl, found'⟩ _
  obtain ⟨-, same'⟩ := Prod.mk.inj (Option.some.inj found')
  refine reports_pure ?_
  rw [same', same]
  exact h

end Bind

end Pass

/-! ### What the operations of a pass report -/

/-- What is reported of a value whose imprint at a place satisfies `S`. -/
def OfImprint (place : Trace) (S : Imprint → Option Memory → Prop) (bs : List UInt8)
    (lines : List LogLine) (r : Option (Unit × Memory)) : Prop :=
  ∃ i, S i (r.map Prod.snd) ∧ bs = i.bytes ∧ lines = i.lines place

/-- What is reported of a row of elements from an index on, whose imprints at a place satisfy `S`.
-/
def OfRow (place : Trace) (index : Nat) (S : List Imprint → Option Memory → Prop) (bs : List UInt8)
    (lines : List LogLine) (r : Option (Unit × Memory)) : Prop :=
  ∃ is, S is (r.map Prod.snd) ∧ bs = Imprint.bytesOf is ∧ lines = Imprint.linesFrom place index is

/-- What is reported of properties whose deeds at a place satisfy `S`. -/
def OfDeeds {α : Type} (place : Trace) (S : List Deed → Option Memory → Prop) (bs : List UInt8)
    (lines : List LogLine) (r : Option (α × Memory)) : Prop :=
  ∃ ds, S ds (r.map Prod.snd) ∧ bs = Deed.bytesOf ds ∧ lines = Deed.linesOf place ds

/-- What is reported of properties whose deeds at a place, with what is written of their end,
satisfy `S`. -/
def OfStream {α : Type} (place : Trace) (S : List Deed → List UInt8 → Option Memory → Prop)
    (bs : List UInt8) (lines : List LogLine) (r : Option (α × Memory)) : Prop :=
  ∃ ds ending, S ds ending (r.map Prod.snd) ∧ bs = Deed.bytesOf ds ++ ending ∧
    lines = Deed.linesOf place ds

/-- The writes of the level report what their actions leave. -/
def Nested.Reports (env : Env) (below : Nested) : Prop :=
  ∀ a m, a.Known env → Pass.Reports (below.writeWith a) m
    (OfImprint m.trace (Leaves env m.trace.beanDepth m.memory a))

/-- What becomes of a property is known by what its value may be. -/
theorem PropertyLeaves.congr {env : Env} {n : Nat} {kind : PropertyKind} {name : String}
    {IsValue IsValue' : Option Value → Memory → Prop} {deeds : List Deed} {r : Option Memory}
    (h : PropertyLeaves env n kind name IsValue deeds r)
    (same : ∀ w c, IsValue w c ↔ IsValue' w c) :
    PropertyLeaves env n kind name IsValue' deeds r := by
  cases h with
  | nameless => exact .nameless
  | valueless none_is => exact .valueless fun w c value => none_is w c ((same w c).2 value)
  | deed named value leaves => exact .deed named ((same _ _).1 value) leaves

/-- In front of other elements, there is one imprint of an element that is complete. -/
theorem ElementLeaves.exists_of_some {n : Nat} {c c' : Memory} {v : Value} {is : List Imprint}
    (h : ElementLeaves env n c v is (some c')) : ∃ i, is = [i] := by
  cases h with
  | imprint => exact ⟨_, rfl⟩

theorem Imprint.bytesOf_append (is more : List Imprint) :
    bytesOf (is ++ more) = bytesOf is ++ bytesOf more := by
  induction is with
  | nil => rw [bytesOf]; rfl
  | cons i is ih => rw [List.cons_append, bytesOf, bytesOf, ih, List.append_assoc]

theorem Deed.bytesOf_append (ds more : List Deed) :
    bytesOf (ds ++ more) = bytesOf ds ++ bytesOf more := by
  induction ds with
  | nil => rw [bytesOf]; rfl
  | cons d ds ih => rw [List.cons_append, bytesOf, bytesOf, ih, List.append_assoc]

theorem Deed.linesOf_append (place : Trace) (ds more : List Deed) :
    linesOf place (ds ++ more) = linesOf place ds ++ linesOf place more := by
  induction ds with
  | nil => rw [linesOf]; rfl
  | cons d ds ih => rw [List.cons_append, linesOf, linesOf, ih, List.append_assoc]

namespace Pass

variable {env : Env} {below : Nested} {m : Machine}

theorem reports_writeValue (reports : below.Reports env) (index : Nat) (v : Value) :
    Reports (framed (.element index) (writeValue env below (some v))) m
      (OfRow m.trace index (ElementLeaves env m.trace.beanDepth m.memory v)) := by
  refine Reports.framed (reports_unwrap_bind ?_ fun w m₁ unwraps place => ?_)
  · intro never
    exact ⟨[], .unwritable fun w c₁ a c₂ unwraps => absurd unwraps (never w c₁), rfl, rfl⟩
  refine reports_actionFor_bind ?_ fun a m₂ chooses place' => ?_
  · refine fun never => ⟨[], .unwritable fun w' c₁ a c₂ unwraps' chooses => ?_, rfl, rfl⟩
    obtain ⟨rfl, rfl⟩ := unwraps.unique unwraps'
    exact never _ _ chooses
  rcases a with _ | a
  · refine reports_failAt ⟨[], .unwritable fun w' c₁ a c₂ unwraps' chooses' => ?_, rfl, rfl⟩
    obtain ⟨rfl, rfl⟩ := unwraps.unique unwraps'
    cases (chooses.unique chooses').1
  · refine (reports a m₂ chooses.known).imp ?_
    rintro _ _ r ⟨i, leaves, rfl, rfl⟩
    have here : m₂.trace = .element index :: m.trace := place'.trans place
    rw [here, Trace.beanDepth_element] at leaves
    refine ⟨[i], .imprint unwraps chooses leaves, ?_, ?_⟩
    · simp only [Imprint.bytesOf, List.append_nil]
    · simp only [Imprint.linesFrom, here, List.append_nil]

theorem reports_writeElements (reports : below.Reports env) (index : Nat) (vs : List Value) :
    Reports (writeElements env below index vs) m
      (OfRow m.trace index (RowLeaves env m.trace.beanDepth m.memory vs)) := by
  induction vs generalizing index m with
  | nil => exact reports_pure ⟨[], .nil _ _, rfl, rfl⟩
  | cons v vs ih =>
    refine Reports.bind (reports_writeValue reports index v) ?_ ?_
    · rintro _ _ ⟨is, first, rfl, rfl⟩
      exact ⟨is, .broken first, rfl, rfl⟩
    rintro _ _ _ m₁ ⟨is, first, rfl, rfl⟩ place
    obtain ⟨i, rfl⟩ := first.exists_of_some
    refine (ih (m := m₁) (index + 1)).imp ?_
    rintro _ _ r ⟨more, others, rfl, rfl⟩
    rw [place] at others
    refine ⟨[i] ++ more, .cons first others, (Imprint.bytesOf_append _ _).symm, ?_⟩
    simp only [Imprint.linesFrom, List.singleton_append, List.append_nil, place]

theorem reports_writeResolvedProperty (reports : below.Reports env) (kind : PropertyKind)
    {name : String} (w : Option Value) :
    Reports (writeResolvedProperty env below kind name w) m fun bs lines r =>
      ∃ deed, DeedLeaves env m.trace.beanDepth kind name m.memory w deed (r.map Prod.snd) ∧
        bs = deed.bytes ∧ lines = deed.lines m.trace := by
  refine Reports.framed (reports_actionFor_bind ?_ fun a m₁ chooses place => ?_)
  · exact fun never => ⟨.unnamed [], .undecided never, rfl, rfl⟩
  have here : m₁.trace = .property kind name :: m.trace := place
  rcases a with _ | a
  · simp only [omitProperty]
    split
    · rename_i lenient
      refine reports_log_return ⟨_, .omitted lenient chooses, rfl, ?_⟩
      rw [here]
      rfl
    · rename_i strict
      exact reports_failAt ⟨.unnamed [], .missing strict chooses, rfl, rfl⟩
  · refine reports_emit_bind (fun part cut => ?_) fun m₂ same place' => ?_
    · exact ⟨.unnamed part, .unnamed chooses cut, rfl, rfl⟩
    have here' : m₂.trace = .property kind name :: m.trace := place'.trans here
    refine Reports.bind (reports a m₂ chooses.known) ?_ ?_
    · rintro _ _ ⟨i, leaves, rfl, rfl⟩
      rw [same, here', Trace.beanDepth_property] at leaves
      refine ⟨.broken kind name i, .broken chooses leaves, rfl, ?_⟩
      rw [here', Deed.lines]
    rintro _ _ _ m₃ ⟨i, leaves, rfl, rfl⟩ place''
    rw [same, here', Trace.beanDepth_property] at leaves
    refine reports_log_return ⟨_, .written chooses leaves, ?_, ?_⟩
    · rw [List.append_nil, Deed.bytes]
    · rw [place'', here', Deed.lines]
      rfl

theorem reports_writeNextProperty (reports : below.Reports env) (name : String)
    (v : Option Value) (kind : PropertyKind) :
    Reports (writeNextProperty env below name v kind) m
      (OfDeeds m.trace
        (PropertyLeaves env m.trace.beanDepth kind name (m.memory.Unwraps env v))) := by
  rw [writeNextProperty]
  split
  · rename_i nameless
    subst nameless
    exact reports_failAt ⟨[], .nameless, rfl, rfl⟩
  · rename_i named
    refine reports_unwrap_bind (fun never => ⟨[], .valueless never, rfl, rfl⟩)
      fun w m₁ unwraps place => ?_
    refine (reports_writeResolvedProperty reports kind w).imp ?_
    rintro _ _ r ⟨deed, leaves, rfl, rfl⟩
    rw [place] at leaves
    refine ⟨[deed], .deed named unwraps leaves, ?_, ?_⟩
    · simp only [Deed.bytesOf, List.append_nil]
    · simp only [Deed.linesOf, List.append_nil, place]

theorem reports_writeField (reports : below.Reports env) (d : Descriptor) (v : Value) (f : Field) :
    Reports (writeField env below d v (d.conventionsOf v) f) m
      (OfDeeds m.trace (PropertyLeaves env m.trace.beanDepth .field f.name
        (m.memory.Effective env d v f))) := by
  rw [writeField]
  rcases read : d.read f v with _ | raw
  · refine reports_throw ⟨[], .valueless fun w c => ?_, rfl, rfl⟩
    refine Memory.not_effective fun raw found => ?_
    cases read.symm.trans found
  -- the property of a value that is the one of the field
  have property {m₁ : Machine} {u : Option Value} (place : m₁.trace = m.trace)
      (same : ∀ w c, m₁.memory.Unwraps env u w c ↔ m.memory.Effective env d v f w c) :
      Reports (discard (writeNextProperty env below f.name u .field)) m₁
        (OfDeeds m.trace (PropertyLeaves env m.trace.beanDepth .field f.name
          (m.memory.Effective env d v f))) := by
    refine Reports.discard ((reports_writeNextProperty reports f.name u .field).imp ?_)
    rintro _ _ r ⟨deeds, leaves, rfl, rfl⟩
    rw [place] at leaves ⊢
    refine ⟨deeds, ?_, rfl, rfl⟩
    rw [Option.map_map]
    exact leaves.congr same
  rcases brings : d.conventionsOf v with _ | mapping
  · exact property rfl fun w c => (Memory.effective_iff_unwraps read brings).symm
  · refine reports_unwrap_bind (fun never => ?_) fun own m₁ unwraps place => ?_
    · refine ⟨[], .valueless fun w c => Memory.not_effective fun raw' found => ?_, rfl, rfl⟩
      cases read.symm.trans found
      exact never
    rcases own with _ | content
    · refine Reports.bind (reports_get (P := fun bs lines r => bs = [] ∧ lines = [] ∧
        r = some (m₁, m₁.memory)) ⟨rfl, rfl, rfl⟩) (by rintro _ _ ⟨-, -, ⟨⟩⟩) ?_
      rintro _ _ _ m₂ ⟨rfl, rfl, found⟩ place'
      obtain ⟨rfl, same⟩ := Prod.mk.inj (Option.some.inj found)
      refine property (place'.trans place) fun w c => ?_
      rw [same]
      exact (Memory.effective_iff_convention read unwraps brings).symm
    · exact property place fun w c => (Memory.effective_iff_content read unwraps).symm

theorem reports_writeFields (reports : below.Reports env) (d : Descriptor) (v : Value)
    (fs : List Field) :
    Reports (writeFields env below d v (d.conventionsOf v) fs) m
      (OfDeeds m.trace (FieldsLeave env m.trace.beanDepth m.memory d v fs)) := by
  induction fs generalizing m with
  | nil => exact reports_pure ⟨[], .nil _ _ d v, rfl, rfl⟩
  | cons f fs ih =>
    refine Reports.bind (reports_writeField reports d v f) ?_ ?_
    · rintro _ _ ⟨deeds, first, rfl, rfl⟩
      exact ⟨deeds, .broken first, rfl, rfl⟩
    rintro _ _ _ m₁ ⟨deeds, first, rfl, rfl⟩ place
    refine (ih (m := m₁)).imp ?_
    rintro _ _ r ⟨more, others, rfl, rfl⟩
    rw [place] at others ⊢
    exact ⟨deeds ++ more, .cons first others, (Deed.bytesOf_append _ _).symm,
      (Deed.linesOf_append _ _ _).symm⟩

theorem reports_writeFieldsOf (reports : below.Reports env) (d : Descriptor) (v : Value) :
    Reports (writeFieldsOf env below d v) m
      (OfStream (.bean d.path :: m.trace) (BeanLeaves env m.trace.beanDepth m.memory d v)) := by
  rw [writeFieldsOf]
  refine Reports.bind (reports_trace (P := fun bs lines r => bs = [] ∧ lines = [] ∧
    r = some (m.trace, m.memory)) ⟨rfl, rfl, rfl⟩) (by rintro _ _ ⟨-, -, ⟨⟩⟩) ?_
  rintro _ _ t m₁ ⟨rfl, rfl, found⟩ place
  obtain ⟨rfl, same⟩ := Prod.mk.inj (Option.some.inj found)
  split
  · rename_i deep
    exact reports_failAt ⟨[], [], .tooDeep deep, rfl, rfl⟩
  rename_i within
  have within : m.trace.beanDepth < env.settings.maxDepth := Nat.lt_of_not_le within
  have here : (m₁.enter (.bean d.path)).trace = .bean d.path :: m.trace := by
    rw [Machine.trace_enter, place]
  refine Reports.framed (Reports.bind (reports_writeFields reports d v d.fields) ?_ ?_)
  · rintro _ _ ⟨deeds, fields, rfl, rfl⟩
    rw [here, Trace.beanDepth_bean, Machine.memory_enter, same] at fields
    exact ⟨deeds, [], .broken within fields, (List.append_nil _).symm, by rw [here]; rfl⟩
  rintro _ _ _ m₂ ⟨deeds, fields, rfl, rfl⟩ _
  rw [here, Trace.beanDepth_bean, Machine.memory_enter, same] at fields
  refine reports_emit ?_ fun part cut => ?_
  · exact ⟨deeds, _, .ended within fields, rfl, by rw [here, List.append_nil]; rfl⟩
  · exact ⟨deeds, part, .unended within fields cut, rfl, by rw [here, List.append_nil]; rfl⟩

/-- A codec that only writes logs nothing. -/
theorem reports_writePayload_codec {e : Entry} {v : Value} (plain : (e.codec v).Plain) :
    Reports (writePayload env below (.codec e v)) m fun bs lines r =>
      Leaves env m.trace.beanDepth m.memory (.codec e v) (.codec e.tag bs) (r.map Prod.snd) ∧
        lines = [] := by
  by_cases own : v.typeId = e.type
  · obtain ⟨pieces, ending, notNested, run⟩ := plain.exists_pieces
    rw [Reports, Meets, run_writePayload_codec own notNested (run env below m), payloadEnding]
    rcases written : writePieces pieces m.encoder with ⟨⟨⟩, encoder⟩ | ⟨source, encoder⟩
    · have grows : m.Grows pieces.flatten [] { m with encoder } :=
        ⟨written_of_writePieces written, (List.append_nil _).symm⟩
      rcases ending with reason | ⟨⟩
      · exact ⟨_, _, grows, .failed own ⟨pieces, _, run, .inr ⟨rfl, reason, rfl⟩⟩, rfl⟩
      · exact ⟨_, _, grows, rfl, .codec own ⟨pieces, rfl, run⟩, rfl⟩
    · obtain ⟨part, cut, added⟩ := exists_cut_of_writePieces failsShort written
      exact ⟨part, [], ⟨added, (List.append_nil _).symm⟩,
        .failed own ⟨pieces, ending, run, .inl cut⟩, rfl⟩
  · rw [Reports, Meets, run_writePayload_wrongType own m]
    exact ⟨[], [], .nothing rfl rfl, .foreign own, rfl⟩

theorem reports_writeWith (reports : below.Reports env) (plain : env.codecs.Plain) {a : Action}
    (known : a.Known env) :
    Reports (writeWith env below a) m
      (OfImprint m.trace (Leaves env m.trace.beanDepth m.memory a)) := by
  refine reports_emit_bind (fun part cut => ⟨.head part, .head cut, rfl, rfl⟩)
    fun m₁ same place => ?_
  rw [← same, ← place]
  cases a with
  | null => exact reports_pure ⟨.null, .null _ _, List.append_nil _, rfl⟩
  | codec e v =>
    refine (reports_writePayload_codec (plain known v)).imp ?_
    rintro bs _ r ⟨leaves, rfl⟩
    exact ⟨.codec e.tag bs, leaves, rfl, rfl⟩
  | bean d v =>
    refine reports_emit_bind (fun part cut => ?_) fun m₂ same' place' => ?_
    · exact ⟨.head (Tag.bytes Tag.bean ++ part), .path cut, rfl, rfl⟩
    rw [← same', ← place']
    refine (reports_writeFieldsOf reports d v).imp ?_
    rintro _ _ r ⟨deeds, ending, fields, rfl, rfl⟩
    exact ⟨.bean d.path deeds ending, .bean fields, rfl, rfl⟩
  | sequence items =>
    refine reports_emit_bind (fun part cut => ?_) fun m₂ same' place' => ?_
    · exact ⟨.head (Tag.bytes Tag.sequence ++ part), .count cut, rfl, rfl⟩
    rw [← same', ← place']
    refine (reports_writeElements reports 0 items).imp ?_
    rintro _ _ r ⟨is, row, rfl, rfl⟩
    exact ⟨.sequence items.length is, .sequence row, rfl, rfl⟩

/-- The writes of every level report what their actions leave. -/
theorem reports_ofDepth (plain : env.codecs.Plain) (depth : Nat) :
    (Nested.ofDepth env depth).Reports env := by
  induction depth with
  | zero =>
    intro a m _
    have cut : Cut [] a.mark := .nil (Reading.encoding_tag_ne_nil _)
    exact reports_abort ⟨.head [], .head cut, rfl, rfl⟩
  | succ depth ih => exact fun a m known => reports_writeWith ih plain known

/-- Whatever becomes of a call for properties, the bytes that were written and the lines that were
logged are those of the properties that it leaves. -/
theorem reports_call (plain : env.codecs.Plain) (depth : Nat) {c : Call} (streams : c.Streams) :
    Reports (c.run env (.ofDepth env depth)) m fun bs lines r => ∃ frames, OfStream
      (frames ++ m.trace) (c.Leaves env m.trace.beanDepth m.memory frames) bs lines r := by
  cases c with
  | value v => exact streams.elim
  | property name v kind =>
    refine (reports_writeNextProperty (reports_ofDepth plain depth) name v kind).imp ?_
    rintro _ _ r ⟨deeds, leaves, rfl, rfl⟩
    exact ⟨[], deeds, [], .property leaves, (List.append_nil _).symm, rfl⟩
  | bean v =>
    refine Reports.bind (reports_writer? (P := fun bs lines r => bs = [] ∧ lines = [] ∧ match r with
        | some (d, c) => ∃ beans, Beans.writer? env.decls v.typeId m.beans = .ok d beans ∧
            c = { m.memory with beans }
        | none => ∀ d beans, Beans.writer? env.decls v.typeId m.beans ≠ .ok d beans)
      (fun d beans found => ⟨rfl, rfl, beans, found, rfl⟩) fun never => ⟨rfl, rfl, never⟩) ?_ ?_
    · rintro _ _ ⟨rfl, rfl, never⟩
      exact ⟨[], [], [], .unknown fun d beans => never (some d) beans, rfl, rfl⟩
    rintro _ _ d m₁ ⟨rfl, rfl, beans, found, same⟩ place
    rcases d with _ | d
    · refine reports_throw ⟨[], [], [], .unknown fun d beans' found' => ?_, rfl, rfl⟩
      cases found.symm.trans found'
    · refine (reports_writeFieldsOf (reports_ofDepth plain depth) d v).imp ?_
      rintro _ _ r ⟨deeds, ending, leaves, rfl, rfl⟩
      rw [place, same] at leaves
      exact ⟨[.bean d.path], deeds, ending, .bean found leaves, rfl, by rw [place]; rfl⟩

end Pass

end BeanStream
