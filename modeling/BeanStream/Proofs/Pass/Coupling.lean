import BeanStream.Proofs.Pass.Advance
import BeanStream.Proofs.Pass.Ends

/-!
# Two passes side by side

Two passes over the same codecs and declarations, under settings that may differ, are run beside
each other from machines that are **similar**. What this means is for a `Coupling` to say, which
also says what has to hold of each elementary operation: that it comes to the same in both passes
and leaves similar machines, or that **one of the passes ends there** while the other one goes on.

Main fact: if the codecs and the writes one level below are coupled, then so is **every operation
of a pass** (`Coupling.writeValue` to `Coupling.writeBean`), and with the codecs every level
(`Coupling.below_ofDepth`) and every call (`Coupling.run_call`). A pass that goes on alone only
adds to what there is (`Pass.Proceeds`), which is why what is said about the point where the
passes part stays true.
-/

namespace BeanStream

open Wire Encoder Pass

/-- Why a write fails, for whatever place it fails at. -/
inductive Reason where
  | codec (typePath : String) (source : CodecError)
  /-- The frames are those that are not on the trace yet. -/
  | unwrap (frames : List Frame) (source : UnwrapError)
  | missingCodec (typePath : String)
  | unknownBean (typePath : String)
  | fieldAccess (bean field typePath : String)
  | emptyPropertyName
  | io (source : IoError)

/-- The failure for this reason at a place. -/
def Reason.toError : Reason → Trace → WriteError
  | .codec typePath source, t => .codec t typePath source
  | .unwrap frames source, t => .unwrap (frames ++ t) source
  | .missingCodec typePath, t => .missingCodec t typePath
  | .unknownBean typePath, _ => .unknownBean typePath
  | .fieldAccess bean field typePath, _ => .fieldAccess bean field typePath
  | .emptyPropertyName, t => .emptyPropertyName t
  | .io source, t => .io t source

/-- A failure that comes from one of the output: as such, or by way of a codec. -/
inductive WriteError.Blames (source : IoError) : WriteError → Prop
  | io (t) : Blames source (.io t source)
  | codec (t typePath) : Blames source (.codec t typePath (.io source))

namespace Pass

variable {ω : Type}

theorem run_emit [Output ω] (p : Primitive) (m : Machine ω) :
    (emit p).run m =
      match writePieces p.pieces m.encoder with
      | .ok _ encoder => .ok (.ok ()) { m with encoder }
      | .error source encoder => .ok (.error (.io m.trace source)) { m with encoder } := by
  have written : (onEncoder (Encoder.write p)).run m =
      match Encoder.write p m.encoder with
      | .ok _ encoder => .ok (.ok ()) { m with encoder }
      | .error source encoder => .ok (.error source) { m with encoder } := by
    simp only [onEncoder, ExceptT.run]
    rcases Encoder.write p m.encoder with ⟨⟨⟩, encoder⟩ | ⟨source, encoder⟩ <;> rfl
  rw [emit, run_outcome_bind, written, writes_write p m.encoder]
  rcases writePieces p.pieces m.encoder with ⟨⟨⟩, encoder⟩ | ⟨source, encoder⟩ <;> rfl

theorem run_unwrap (env : Env) (frames : List Frame) (v : Option Value) (m : Machine ω) :
    (unwrap env frames v).run m =
      match (Value.unwrap env.decls v).run m.store with
      | .ok (.ok w) store => .ok (.ok w) { m with store }
      | .ok (.error source) store =>
        .ok (.error (.unwrap (frames ++ m.trace) source)) { m with store }
      | .error reason store => .error reason { m with store } := by
  rw [unwrap, run_outcome_bind]
  simp only [ExceptT.run_mk, onStore]
  rcases (Value.unwrap env.decls v).run m.store with ⟨source | w, store⟩ | ⟨reason, store⟩ <;> rfl

theorem run_writer? {ε : Type} (env : Env) (type : TypeId) (m : Machine ω) :
    (liftM (writer? env type) : AttemptTo ω ε _).run m =
      match Beans.writer? env.decls type m.beans with
      | .ok d beans => .ok (.ok d) { m with beans }
      | .error reason beans => .error reason { m with beans } := by
  rw [run_lift, writer?, onBeans]
  rcases Beans.writer? env.decls type m.beans with ⟨d, beans⟩ | ⟨reason, beans⟩ <;> rfl

theorem run_actionFor {ε : Type} (env : Env) (v : Value) (m : Machine ω) :
    (liftM (actionFor env (some v)) : AttemptTo ω ε _).run m =
      match env.codecs.get? v.typeId with
      | some e => .ok (.ok (some (.codec e v))) m
      | none =>
        match Beans.writer? env.decls v.typeId m.beans with
        | .ok (some d) beans => .ok (.ok (some (.bean d v))) { m with beans }
        | .ok none beans => .ok (.ok (v.items?.map .sequence)) { m with beans }
        | .error reason beans => .error reason { m with beans } := by
  rw [run_lift]
  rcases found : env.codecs.get? v.typeId with _ | e
  · rw [actionFor_of_no_codec found, writer?, onBeans]
    rcases Beans.writer? env.decls v.typeId m.beans with ⟨_ | d, beans⟩ | ⟨reason, beans⟩ <;> rfl
  · rw [actionFor_of_codec found]

end Pass

/-- What is read under other settings. -/
def Env.under (env : Env) (settings : Settings) : Env := { env with settings }

@[simp] theorem Env.under_settings (env : Env) (settings : Settings) :
    (env.under settings).settings = settings := rfl

/-- What it means for a pass in `env`, and for one under other settings, to go together. -/
structure Coupling (env : Env) (settings : Settings) (ω : Type := Encoder) [Output ω] where
  /-- The machines of the two passes, as long as they go together. -/
  sim : Machine ω → Machine ω → Prop
  /-- The failures of the two passes, if both end there. -/
  fails : WriteError → WriteError → Prop
  /-- The first pass has failed and left its machine; the other one has come to a machine. -/
  first : WriteError → Machine ω → Machine ω → Prop
  /-- The second pass has failed and left its machine; the first one has come to a machine. -/
  second : Machine ω → WriteError → Machine ω → Prop
  /-- The values that the passes may meet. -/
  fits : Value → Prop
  /-- A frame is entered, that of a bean within the limit only. -/
  entering {m m'} (h : sim m m') {f : Frame}
    (within : f.isBean = true → m.trace.beanDepth < env.settings.maxDepth) :
    sim (m.enter f) (m'.enter f)
  leaving {m m'} (h : sim m m') (entered : m'.trace ≠ []) : sim m.leave m'.leave
  fails_at {m m'} (h : sim m m') (r : Reason) : fails (r.toError m.trace) (r.toError m'.trace)
  /-- The limit on nesting is exceeded in both passes, or the first pass ends there. -/
  tooDeep {m m'} (h : sim m m') (deep : env.settings.maxDepth ≤ m.trace.beanDepth) :
    (settings.maxDepth ≤ m'.trace.beanDepth ∧
      fails (.tooDeep m.trace env.settings.maxDepth) (.tooDeep m'.trace settings.maxDepth)) ∨
    first (.tooDeep m.trace env.settings.maxDepth) m m'
  /-- The limit is not exceeded in the second pass only. -/
  within {m m'} (h : sim m m') (deep : settings.maxDepth ≤ m'.trace.beanDepth) :
    env.settings.maxDepth ≤ m.trace.beanDepth
  logging {m m'} (h : sim m m') (typePath : Option String) :
    sim { m with logs := m.logs ++ [.written m.trace typePath] }
      { m' with logs := m'.logs ++ [.written m'.trace typePath] }
  /-- A property is left out, or it is not, as the policies say. -/
  omitting {m m'} (h : sim m m') (typePath : String) :
    let logged : Machine ω := { m with logs := m.logs ++ [.omitted m.trace typePath] }
    match env.settings.missing, settings.missing with
    | .warn, .warn => sim logged { m' with logs := m'.logs ++ [.omitted m'.trace typePath] }
    | .warn, .fail => second logged (.missingCodec m'.trace typePath) m'
    | .fail, .warn => False
    | .fail, .fail => True
  writing {m m'} (h : sim m m') (pieces : List (List UInt8)) :
    match writePieces pieces m.encoder, writePieces pieces m'.encoder with
    | .ok _ e, .ok _ e' => sim { m with encoder := e } { m' with encoder := e' }
    | .error source e, .error source' e' =>
      source = source' ∧ sim { m with encoder := e } { m' with encoder := e' }
    | .error source e, .ok _ e' => ∀ reason : WriteError, reason.Blames source →
      first reason { m with encoder := e } { m' with encoder := e' }
    | .ok _ _, .error _ _ => False
  unwrapping {m m'} (h : sim m m') {v : Option Value} (fitting : ∀ u, v = some u → fits u) :
    Alike (fun s s' => sim { m with store := s } { m' with store := s' })
      ((Value.unwrap env.decls v).run m.store) ((Value.unwrap env.decls v).run m'.store)
  asking {m m'} (h : sim m m') (type : TypeId) :
    Alike (fun b b' => sim { m with beans := b } { m' with beans := b' })
      (Beans.writer? env.decls type m.beans) (Beans.writer? env.decls type m'.beans)
  convention {m m'} (h : sim m m') (mapping : Nat) (name : String) :
    m.store.conventionValue mapping name = m'.store.conventionValue mapping name
  fits_unwrap {m m'} (h : sim m m') {v : Value} (fitting : fits v) {w : Value} {s : Store}
    (unwrapped : (Value.unwrap env.decls (some v)).run m.store = .ok (.ok (some w)) s) : fits w
  fits_item {v : Value} (fitting : fits v) {items : List Value} (list : v.items? = some items) :
    ∀ u ∈ items, fits u
  fits_field {d : Descriptor} {v : Value} (fitting : fits v) {f : Field} {u : Value}
    (read : d.read f v = some u) : fits u
  fits_convention {m m'} (h : sim m m') {d : Descriptor} {v : Value} (fitting : fits v)
    {mapping : Nat} (brings : d.conventionsOf v = some mapping) {name : String} {u : Value}
    (mapped : m.store.conventionValue mapping name = some u) : fits u
  first_advances {e m m' m''} (h : first e m m') (later : m'.Advances (env.under settings) m'') :
    first e m m''
  first_leave {e m m'} (h : first e m m') : first e m.leave m'
  second_advances {m e m' m''} (h : second m e m') (later : m.Advances env m'') : second m'' e m'
  second_leave {m e m'} (h : second m e m') : second m e m'.leave

namespace Coupling

variable {ω : Type} [Output ω] {env : Env} {settings : Settings} (C : Coupling env settings ω)
  {α β : Type}

/-! ### What may become of the two passes -/

/-- The two passes go together, or end together. -/
inductive Together {α : Type} : Outcome WriteError α ω → Outcome WriteError α ω → Prop
  | done (a) {m m'} (sim : C.sim m m') : Together (.ok (.ok a) m) (.ok (.ok a) m')
  | failed {e e' m m'} (fails : C.fails e e') (sim : C.sim m m') :
      Together (.ok (.error e) m) (.ok (.error e') m')
  | aborted (reason) {m m'} (sim : C.sim m m') : Together (.error reason m) (.error reason m')

/-- What may become of the two passes. -/
inductive Rel {α : Type} : Outcome WriteError α ω → Outcome WriteError α ω → Prop
  | together {r r'} (h : C.Together r r') : Rel r r'
  /-- The first pass has failed, whatever became of the other one. -/
  | first {e m r'} (h : C.first e m (aftermath r')) : Rel (.ok (.error e) m) r'
  /-- The second pass has failed, whatever became of the first one. -/
  | second {r e m'} (h : C.second (aftermath r) e m') : Rel r (.ok (.error e) m')

/-- Run on similar machines, the two computations are related. -/
def Coupled (x y : AttemptTo ω WriteError α) : Prop :=
  ∀ ⦃m m'⦄, C.sim m m' → C.Rel (x.run m) (y.run m')

/-- Run on similar machines, the two computations go together. -/
def Joined (x y : AttemptTo ω WriteError α) : Prop :=
  ∀ ⦃m m'⦄, C.sim m m' → C.Together (x.run m) (y.run m')

variable {C} {x y : AttemptTo ω WriteError α} {f g : α → AttemptTo ω WriteError β}
  {r r' : Outcome WriteError α ω}

theorem Joined.coupled (h : C.Joined x y) : C.Coupled x y := fun _ _ sim => .together (h sim)

/-- Where the failures of both passes are the same, passes that go together come to the same. -/
theorem Together.alike (same : ∀ e e', C.fails e e' → e = e') (h : C.Together r r') :
    Alike C.sim r r' := by
  cases h with
  | done a sim => exact .ok _ sim
  | failed fails sim =>
    obtain rfl := same _ _ fails
    exact .ok _ sim
  | aborted reason sim => exact .error reason sim

/-- Where, moreover, neither pass ends without the other one, all passes come to the same. -/
theorem Rel.alike (same : ∀ e e', C.fails e e' → e = e') (first : ∀ e m m', ¬ C.first e m m')
    (second : ∀ m e m', ¬ C.second m e m') (h : C.Rel r r') : Alike C.sim r r' := by
  cases h with
  | together h => exact h.alike same
  | first ended => exact absurd ended (first _ _ _)
  | second ended => exact absurd ended (second _ _ _)

/-- Passes that go together up to here go on as what follows does. -/
theorem Together.andThen {k k' : α → Machine ω → Outcome WriteError β ω} (h : C.Together r r')
    (next : ∀ a m m', r = .ok (.ok a) m → C.sim m m' → C.Rel (k a m) (k' a m')) :
    C.Rel (r.andThen k) (r'.andThen k') := by
  cases h with
  | done a sim => exact next a _ _ rfl sim
  | failed fails sim => exact .together (.failed fails sim)
  | aborted reason sim => exact .together (.aborted reason sim)

private theorem advances_andThen {env : Env} (r : Outcome WriteError α ω)
    (next : ∀ a, Proceeds env (f a)) :
    (aftermath r).Advances env (aftermath (r.andThen fun a m => (f a).run m)) := by
  rcases r with ⟨e | a, m⟩ | ⟨reason, m⟩
  · exact .refl m
  · exact (next a).advances m
  · exact .refl m

/-- Where one of the passes has ended, the other one goes on with what follows. -/
theorem Rel.andThen (h : C.Rel r r')
    (next : ∀ a m m', r = .ok (.ok a) m → C.sim m m' → C.Rel ((f a).run m) ((g a).run m'))
    (proceeds : ∀ a, Proceeds env (f a)) (proceeds' : ∀ a, Proceeds (env.under settings) (g a)) :
    C.Rel (r.andThen fun a m => (f a).run m) (r'.andThen fun a m => (g a).run m) := by
  cases h with
  | together h => exact h.andThen next
  | first h => exact .first (C.first_advances h (advances_andThen r' proceeds'))
  | second h => exact .second (C.second_advances h (advances_andThen r proceeds))

theorem Coupled.bind (h : C.Coupled x y)
    (next : ∀ a, C.Coupled (f a) (g a))
    (proceeds : ∀ a, Proceeds env (f a)) (proceeds' : ∀ a, Proceeds (env.under settings) (g a)) :
    C.Coupled (x >>= f) (y >>= g) := by
  intro m m' sim
  rw [run_bind, run_bind]
  exact (h sim).andThen (fun a _ _ _ sim => next a sim) proceeds proceeds'

/-- What follows may rely on where its value comes from. -/
theorem Joined.bind (h : C.Joined x y)
    (next : ∀ a, (∃ m m' m₁, C.sim m m' ∧ x.run m = .ok (.ok a) m₁) → C.Coupled (f a) (g a)) :
    C.Coupled (x >>= f) (y >>= g) := by
  intro m m' sim
  rw [run_bind, run_bind]
  exact (h sim).andThen fun a m₁ m₁' run sim₁ => next a ⟨m, m', m₁, sim, run⟩ sim₁

theorem coupled_pure (a : α) : C.Coupled (pure a) (pure a) :=
  fun _ _ sim => .together (.done a sim)

theorem Coupled.discard (h : C.Coupled x y) : C.Coupled (discard x) (discard y) := by
  rw [discard_eq_bind, discard_eq_bind]
  exact h.bind (fun _ => coupled_pure _) (fun _ => .pure _) fun _ => .pure _

/-- The frame is taken off in both passes. -/
theorem Coupled.rel_framed (h : C.Coupled x y) (proceeds' : Proceeds (env.under settings) y)
    {m m' : Machine ω} (sim : C.sim m m') {frame : Frame}
    (within : frame.isBean = true → m.trace.beanDepth < env.settings.maxDepth) :
    C.Rel ((framed frame x).run m) ((framed frame y).run m') := by
  have inside := h (C.entering sim within)
  have kept {answer : Except WriteError α} {m₁ : Machine ω}
      (run : y.run (m'.enter frame) = .ok answer m₁) : m₁.trace ≠ [] := by
    rw [proceeds'.trace run]
    exact List.cons_ne_nil _ _
  rw [run_framed, run_framed]
  generalize x.run (m.enter frame) = r at inside
  generalize y.run (m'.enter frame) = r' at inside kept
  have behind (r : Outcome WriteError α ω) {env : Env} :
      (aftermath r).Advances env (aftermath r.leave) := by
    rcases r with ⟨answer, m⟩ | ⟨reason, m⟩
    · exact (Machine.Advances.refl m).leave
    · exact .refl m
  cases inside with
  | together inside =>
    cases inside with
    | done a sim => exact .together (.done a (C.leaving sim (kept rfl)))
    | failed fails sim => exact .together (.failed fails (C.leaving sim (kept rfl)))
    | aborted reason sim => exact .together (.aborted reason sim)
  | first inside => exact .first (C.first_leave (C.first_advances inside (behind r')))
  | second inside => exact .second (C.second_leave (C.second_advances inside (behind r)))

/-- Frames that are not those of beans are put on whatever the limit is. -/
theorem Coupled.framed (h : C.Coupled x y) (proceeds' : Proceeds (env.under settings) y)
    {frame : Frame} (other : frame.isBean = false) : C.Coupled (framed frame x) (framed frame y) :=
  fun _ _ sim => h.rel_framed proceeds' sim fun bean => nomatch other.symm.trans bean

/-! ### Elementary operations -/

theorem joined_failAt (r : Reason) :
    C.Joined (failAt r.toError : AttemptTo ω WriteError α) (failAt r.toError) :=
  fun _ _ sim => .failed (C.fails_at sim r) sim

/-- A failure that does not tell where it arose. -/
theorem joined_throw {e : WriteError} (r : Reason) (same : ∀ t, r.toError t = e) :
    C.Joined (throw e : AttemptTo ω WriteError α) (throw e) := by
  intro m m' sim
  have fails := C.fails_at sim r
  rw [same, same] at fails
  exact .failed fails sim

theorem joined_logWritten (typePath : Option String) (a : α) :
    C.Joined (logWritten typePath a) (logWritten typePath a) :=
  fun _ _ sim => .done a (C.logging sim typePath)

/-- What is written by one of the passes only ends the other one with a failure of its output. -/
theorem coupled_emit (p : Primitive) : C.Coupled (emit p) (emit p) := by
  intro m m' sim
  have written := C.writing sim p.pieces
  rw [run_emit, run_emit]
  generalize writePieces p.pieces m.encoder = r at written
  generalize writePieces p.pieces m'.encoder = r' at written
  rcases r with ⟨⟨⟩, e⟩ | ⟨source, e⟩ <;> rcases r' with ⟨⟨⟩, e'⟩ | ⟨source', e'⟩
  · exact .together (.done () written)
  · exact written.elim
  · exact .first (written _ (.io m.trace))
  · obtain ⟨rfl, sim'⟩ := written
    exact .together (.failed (C.fails_at sim (.io source)) sim')

theorem joined_unwrap (frames : List Frame) {v : Option Value}
    (fitting : ∀ u, v = some u → C.fits u) :
    C.Joined (unwrap env frames v) (unwrap (env.under settings) frames v) := by
  intro m m' sim
  have unwraps := C.unwrapping sim fitting
  rw [run_unwrap, run_unwrap, Env.under]
  generalize (Value.unwrap env.decls v).run m.store = r at unwraps
  generalize (Value.unwrap env.decls v).run m'.store = r' at unwraps
  cases unwraps with
  | ok outcome left =>
    rcases outcome with source | w
    · exact .failed (C.fails_at sim (.unwrap frames source)) left
    · exact .done w left
  | error reason left => exact .aborted reason left

/-- What is unwrapped fits. -/
theorem fits_of_unwrap {m m' m₁ : Machine ω} (sim : C.sim m m') {frames : List Frame}
    {v w : Option Value} (fitting : ∀ u, v = some u → C.fits u)
    (run : (unwrap env frames v).run m = .ok (.ok w) m₁) : ∀ u, w = some u → C.fits u := by
  rintro u rfl
  rw [run_unwrap] at run
  rcases unwrapped : (Value.unwrap env.decls v).run m.store with
    ⟨source | w, store⟩ | ⟨reason, store⟩ <;> rw [unwrapped] at run <;> cases run
  rcases v with _ | v
  · cases unwrapped
  · exact C.fits_unwrap sim (fitting v rfl) unwrapped

theorem joined_writer? (type : TypeId) :
    C.Joined (liftM (writer? env type)) (liftM (writer? (env.under settings) type)) := by
  intro m m' sim
  have asked := C.asking sim type
  rw [run_writer?, run_writer?, Env.under]
  generalize Beans.writer? env.decls type m.beans = r at asked
  generalize Beans.writer? env.decls type m'.beans = r' at asked
  cases asked with
  | ok d left => exact .done d left
  | error reason left => exact .aborted reason left

theorem joined_actionFor (v : Option Value) :
    C.Joined (liftM (actionFor env v)) (liftM (actionFor (env.under settings) v)) := by
  intro m m' sim
  rcases v with _ | v
  · exact .done _ sim
  have asked := C.asking sim v.typeId
  rw [run_actionFor, run_actionFor, Env.under]
  rcases env.codecs.get? v.typeId with _ | e
  · generalize Beans.writer? env.decls v.typeId m.beans = r at asked
    generalize Beans.writer? env.decls v.typeId m'.beans = r' at asked
    cases asked with
    | ok d left =>
      rcases d with _ | d
      · exact .done _ left
      · exact .done _ left
    | error reason left => exact .aborted reason left
  · exact .done _ sim

/-- An action that the passes may come to. -/
def Fitting (C : Coupling env settings ω) : Action → Prop
  | .null => True
  | .codec e v => env.codecs.get? v.typeId = some e ∧ C.fits v
  | .bean _ v => C.fits v
  | .sequence items => ∀ u ∈ items, C.fits u

/-- The action for a value that fits does so itself. -/
theorem fitting_of_actionFor {m m₁ : Machine ω} {v : Option Value} {a : Action}
    (fitting : ∀ u, v = some u → C.fits u)
    (run : (liftM (actionFor env v) : AttemptTo ω WriteError _).run m = .ok (.ok (some a)) m₁) :
    C.Fitting a := by
  rcases v with _ | v
  · cases run
    trivial
  rw [run_actionFor] at run
  rcases found : env.codecs.get? v.typeId with _ | e <;> rw [found] at run
  · rcases asked : Beans.writer? env.decls v.typeId m.beans with
      ⟨_ | d, beans⟩ | ⟨reason, beans⟩ <;> rw [asked] at run
    · rcases list : v.items? with _ | items <;> rw [list] at run <;> cases run
      exact C.fits_item (fitting v rfl) list
    · cases run
      exact fitting v rfl
    · cases run
  · cases run
    exact ⟨found, fitting v rfl⟩

/-! ### Operations over coupled writes -/

/-- The writes of the two levels are coupled. -/
structure Below (C : Coupling env settings ω) (below below' : Nested ω) : Prop where
  writeWith : ∀ {a}, C.Fitting a → C.Coupled (below.writeWith a) (below'.writeWith a)
  proceeds : below.Proceeds env
  proceeds' : below'.Proceeds (env.under settings)

section Operations

variable {below below' : Nested ω} (h : C.Below below below')

/-- A property is left out in both passes, or the pass that must not do that ends there. -/
theorem coupled_omitProperty (w : Option Value) :
    C.Coupled (omitProperty env w) (omitProperty (env.under settings) w) := by
  intro m m' sim
  have omitted := C.omitting sim (typePathOf env w)
  have lenient (env : Env) (m : Machine ω) (h : env.settings.missing = .warn) :
      (omitProperty env w).run m = .ok (.ok false)
        { m with logs := m.logs ++ [.omitted m.trace (typePathOf env w)] } := by
    simp only [omitProperty, h]
    rfl
  have strict (env : Env) (m : Machine ω) (h : env.settings.missing = .fail) :
      (omitProperty env w).run m =
        .ok (.error (.missingCodec m.trace (typePathOf env w))) m := by
    simp only [omitProperty, h]
    rfl
  -- that the first pass may not leave it out and the second one may is ruled out
  rcases policy : env.settings.missing <;> rcases policy' : settings.missing <;>
    simp only [policy, policy'] at omitted
  · rw [lenient env m policy, lenient (env.under settings) m' policy']
    exact .together (.done false omitted)
  · rw [lenient env m policy, strict (env.under settings) m' policy']
    exact .second omitted
  · rw [strict env m policy, strict (env.under settings) m' policy']
    exact .together (.failed (C.fails_at sim (.missingCodec _)) sim)

include h

theorem writeValue {v : Option Value} (fitting : ∀ u, v = some u → C.fits u) :
    C.Coupled (Pass.writeValue env below v) (Pass.writeValue (env.under settings) below' v) := by
  refine (joined_unwrap [] fitting).bind fun w unwrapped => ?_
  obtain ⟨m, m', m₁, sim, run⟩ := unwrapped
  have fitting := fits_of_unwrap sim fitting run
  refine (joined_actionFor w).bind fun a found => ?_
  obtain ⟨m, m', m₁, -, run⟩ := found
  rcases a with _ | a
  · exact (joined_failAt (.missingCodec (typePathOf env w))).coupled
  · exact h.writeWith (fitting_of_actionFor fitting run)

theorem writeElements (index : Nat) {vs : List Value} (fitting : ∀ u ∈ vs, C.fits u) :
    C.Coupled (Pass.writeElements env below index vs)
      (Pass.writeElements (env.under settings) below' index vs) := by
  induction vs generalizing index with
  | nil => exact coupled_pure ()
  | cons v vs ih =>
    have first : ∀ u, some v = some u → C.fits u := by
      rintro u ⟨⟩
      exact fitting v (List.mem_cons_self ..)
    have others : ∀ u ∈ vs, C.fits u := fun u mem => fitting u (List.mem_cons_of_mem v mem)
    refine Coupled.bind ?_ (fun _ => ih (index + 1) others)
      (fun _ => .writeElements h.proceeds _ vs) fun _ => .writeElements h.proceeds' _ vs
    exact (writeValue h first).framed (.writeValue h.proceeds' _) rfl

theorem writeResolvedProperty (kind : PropertyKind) (name : String) {w : Option Value}
    (fitting : ∀ u, w = some u → C.fits u) :
    C.Coupled (Pass.writeResolvedProperty env below kind name w)
      (Pass.writeResolvedProperty (env.under settings) below' kind name w) := by
  rw [writeResolvedProperty_eq_framed, writeResolvedProperty_eq_framed]
  refine Coupled.framed ?_ (.propertyBody h.proceeds' name w) rfl
  refine (joined_actionFor w).bind fun a found => ?_
  obtain ⟨m, m', m₁, -, run⟩ := found
  rcases a with _ | a
  · exact coupled_omitProperty w
  · have logged {env : Env} {typePath : Option String} :
        Proceeds env (logWritten typePath true : AttemptTo ω WriteError Bool) := .logWritten _ true
    refine Coupled.bind (coupled_emit _) (fun _ => ?_)
      (fun _ => (h.proceeds.writeWith a).bind fun _ => logged)
      fun _ => (h.proceeds'.writeWith a).bind fun _ => logged
    refine Coupled.bind (h.writeWith (fitting_of_actionFor fitting run)) (fun _ => ?_)
      (fun _ => logged) fun _ => logged
    exact (joined_logWritten _ true).coupled

theorem writeNextProperty (name : String) {v : Option Value} (kind : PropertyKind)
    (fitting : ∀ u, v = some u → C.fits u) :
    C.Coupled (Pass.writeNextProperty env below name v kind)
      (Pass.writeNextProperty (env.under settings) below' name v kind) := by
  unfold Pass.writeNextProperty
  split
  · exact (joined_failAt .emptyPropertyName).coupled
  · refine (joined_unwrap _ fitting).bind fun w unwrapped => ?_
    obtain ⟨m, m', m₁, sim, run⟩ := unwrapped
    exact writeResolvedProperty h kind name (fits_of_unwrap sim fitting run)

theorem writeField {d : Descriptor} {v : Value} (fitting : C.fits v) (f : Field) :
    C.Coupled (Pass.writeField env below d v (d.conventionsOf v) f)
      (Pass.writeField (env.under settings) below' d v (d.conventionsOf v) f) := by
  unfold Pass.writeField
  rcases read : d.read f v with _ | raw
  · exact (joined_throw (.fieldAccess _ _ _) fun _ => rfl).coupled
  have own : ∀ u, some raw = some u → C.fits u := by
    rintro u ⟨⟩
    exact C.fits_field fitting read
  rcases brings : d.conventionsOf v with _ | mapping
  · exact (writeNextProperty h f.name .field own).discard
  · refine (joined_unwrap _ own).bind fun w unwrapped => ?_
    obtain ⟨m, m', m₁, sim, run⟩ := unwrapped
    rcases w with _ | content
    -- the convention value is that of the store at this point
    · intro m m' sim
      have fallback : ∀ u, m.store.conventionValue mapping f.name = some u → C.fits u :=
        fun u mapped => C.fits_convention sim fitting brings mapped
      have related := (writeNextProperty h f.name .field fallback).discard sim
      have same := C.convention sim mapping f.name
      change C.Rel _ ((discard (Pass.writeNextProperty (env.under settings) below' f.name
        (m'.store.conventionValue mapping f.name) .field)).run m')
      rw [← same]
      exact related
    · exact (writeNextProperty h f.name .field (fits_of_unwrap sim own run)).discard

theorem writeFields {d : Descriptor} {v : Value} (fitting : C.fits v) (fs : List Field) :
    C.Coupled (Pass.writeFields env below d v (d.conventionsOf v) fs)
      (Pass.writeFields (env.under settings) below' d v (d.conventionsOf v) fs) := by
  induction fs with
  | nil => exact coupled_pure ()
  | cons f fs ih =>
    exact (writeField h fitting f).bind (fun _ => ih) (fun _ => .writeFields h.proceeds d v _ fs)
      fun _ => .writeFields h.proceeds' d v _ fs

/-- The limit is exceeded in the first pass, or the properties are written in both. -/
theorem writeFieldsOf {d : Descriptor} {v : Value} (fitting : C.fits v) :
    C.Coupled (Pass.writeFieldsOf env below d v)
      (Pass.writeFieldsOf (env.under settings) below' d v) := by
  intro m m' sim
  have run (env : Env) (below : Nested ω) (m : Machine ω) :
      (Pass.writeFieldsOf env below d v).run m = if env.settings.maxDepth ≤ m.trace.beanDepth then
        .ok (.error (.tooDeep m.trace env.settings.maxDepth)) m
      else
        (framed (.bean d.path) (writingProperties
          (Pass.writeFields env below d v (d.conventionsOf v) d.fields))).run m := by
    simp only [Pass.writeFieldsOf, run_bind, run_trace, Outcome.andThen, ge_iff_le]
    split <;> rfl
  rw [run]
  by_cases deep : env.settings.maxDepth ≤ m.trace.beanDepth
  · rw [if_pos deep]
    rcases C.tooDeep sim deep with ⟨deep', fails⟩ | ended
    · rw [run, Env.under_settings, if_pos deep']
      exact .together (.failed fails sim)
    · exact .first (C.first_advances ended ((Proceeds.writeFieldsOf h.proceeds' d v).advances m'))
  · rw [run, Env.under_settings, if_neg deep, if_neg fun deep' => deep (C.within sim deep')]
    have inside : C.Coupled
        (writingProperties (Pass.writeFields env below d v (d.conventionsOf v) d.fields))
        (writingProperties
          (Pass.writeFields (env.under settings) below' d v (d.conventionsOf v) d.fields)) :=
      (writeFields h fitting d.fields).bind (fun _ => coupled_emit _) (fun _ => .emit _)
        fun _ => .emit _
    have proceeds := Proceeds.writeFields h.proceeds' d v (d.conventionsOf v) d.fields
    exact inside.rel_framed (proceeds.bind fun _ => .emit _) sim fun _ => Nat.lt_of_not_le deep

theorem writeBean {v : Value} (fitting : C.fits v) :
    C.Coupled (Pass.writeBean env below v) (Pass.writeBean (env.under settings) below' v) := by
  refine (joined_writer? v.typeId).bind fun d _ => ?_
  rcases d with _ | d
  · exact (joined_throw (.unknownBean _) fun _ => rfl).coupled
  · exact writeFieldsOf h fitting

/-- An action is written alike, if this is so for the payloads of codecs. -/
theorem writeWith (codec : ∀ {e v}, C.Fitting (.codec e v) →
      C.Coupled (writePayload env below (.codec e v))
        (writePayload (env.under settings) below' (.codec e v)))
    {a : Action} (fitting : C.Fitting a) :
    C.Coupled (Pass.writeWith env below a) (Pass.writeWith (env.under settings) below' a) := by
  refine (coupled_emit _).bind (fun _ => ?_) (fun _ => .writePayload h.proceeds a)
    fun _ => .writePayload h.proceeds' a
  cases a with
  | null => exact coupled_pure ()
  | codec e v => exact codec fitting
  | bean d v =>
    exact (coupled_emit _).bind (fun _ => writeFieldsOf h fitting)
      (fun _ => .writeFieldsOf h.proceeds d v) fun _ => .writeFieldsOf h.proceeds' d v
  | sequence items =>
    exact (coupled_emit _).bind (fun _ => writeElements h 0 fitting)
      (fun _ => .writeElements h.proceeds 0 items) fun _ => .writeElements h.proceeds' 0 items

/-- A call comes to the same, or one of the passes ends. -/
theorem run_call {c : Call} (fitting : ∀ u, c.subject = some u → C.fits u) :
    C.Coupled (c.run env below) (c.run (env.under settings) below') := by
  cases c with
  | value v => exact writeValue h fitting
  | property name v kind => exact writeNextProperty h name kind fitting
  | bean v => exact writeBean h (fitting v rfl)

end Operations

/-! ### Plain codecs -/

/-- What becomes of a value that is written by a plain codec: the same in every pass, but for the
place that a failure tells. -/
private theorem exists_payload (plain : env.codecs.Plain) {e : Entry} {v : Value}
    (found : env.codecs.get? v.typeId = some e) :
    ∃ (pieces : List (List UInt8)) (ending : Except CodecError Unit),
      ∀ settings below (m : Machine ω),
        (writePayload (env.under settings) below (.codec e v)).run m =
          payloadEnding (v.typePath env.decls) pieces ending m := by
  by_cases own : v.typeId = e.type
  · obtain ⟨pieces, ending, notNested, run⟩ := (plain found v).exists_pieces
    exact ⟨pieces, ending, fun settings below m =>
      run_writePayload_codec own notNested (run (env.under settings) below m)⟩
  · exact ⟨[], .error (.wrongType e.type.name (v.typePath env.decls)), fun settings below m =>
      run_writePayload_wrongType own m⟩

/-- Plain codecs write the same pieces in both passes. -/
theorem coupled_payload (plain : env.codecs.Plain) {below below' : Nested ω} {e : Entry} {v : Value}
    (found : env.codecs.get? v.typeId = some e) :
    C.Coupled (writePayload env below (.codec e v))
      (writePayload (env.under settings) below' (.codec e v)) := by
  intro m m' sim
  obtain ⟨pieces, ending, run⟩ := exists_payload (ω := ω) plain found
  have written := C.writing sim pieces
  have run₁ : (writePayload env below (.codec e v)).run m = _ := run env.settings below m
  rw [run₁, run settings below' m', payloadEnding, payloadEnding]
  generalize writePieces pieces m.encoder = r at written
  generalize writePieces pieces m'.encoder = r' at written
  rcases r with ⟨⟨⟩, encoder⟩ | ⟨source, encoder⟩ <;>
    rcases r' with ⟨⟨⟩, encoder'⟩ | ⟨source', encoder'⟩
  · rcases ending with reason | ⟨⟩
    · exact .together (.failed (C.fails_at sim (.codec _ reason)) written)
    · exact .together (.done () written)
  · exact written.elim
  · have ended := written _ (.codec m.trace (v.typePath env.decls))
    rcases ending with reason | ⟨⟩
    · exact .first ended
    · exact .first ended
  · obtain ⟨rfl, sim'⟩ := written
    exact .together (.failed (C.fails_at sim (.codec _ (.io source))) sim')

/-- Over plain codecs, the writes of every level are coupled. -/
theorem below_ofDepth (C : Coupling env settings ω) (plain : env.codecs.Plain) (depth : Nat) :
    C.Below (.ofDepth env depth) (.ofDepth (env.under settings) depth) := by
  refine ⟨fun {a} fitting => ?_, proceeds_ofDepth env depth, proceeds_ofDepth _ depth⟩
  induction depth generalizing a with
  | zero => exact fun _ _ sim => .together (.aborted .overflow sim)
  | succ depth ih =>
    have below : C.Below (.ofDepth env depth) (.ofDepth (env.under settings) depth) :=
      ⟨fun {_} => ih, proceeds_ofDepth env depth, proceeds_ofDepth _ depth⟩
    exact writeWith below (fun {_ _} fitting => coupled_payload plain fitting.1) fitting

end Coupling

end BeanStream
