import BeanStream.Proofs.Pass.Surroundings

/-!
# Properties and their values

A value can be written by itself, or as a property. Both are written from the same machine here.
A property is **its name followed by its value, or nothing**: where it is known how to write the
value, the bytes of the property are those of the name and then those of the value, and the two
writes come to the same, but for the frame of the property on each trace. Where it is not known, no
byte is written by either of them.

What carries this through the value is that a reliable output never tells what it held before
(`behind`), and a trace never tells what is below (`surrounded`).

Main fact: `Pass.writeNextProperty_beside_writeValue`.
-/

namespace BeanStream

open Wire Encoder Pass

variable {ω : Type} [Output ω]

/-! ### What was written before -/

/-- Two reliable outputs hold the same bytes behind what they held before. -/
structure Wire.Output.Behind (front front' : List UInt8) (o o' : ω) : Prop where
  added : ∃ bs, Output.written o = front ++ bs ∧ Output.written o' = front' ++ bs
  first : Output.Reliable o
  second : Output.Reliable o'

/-- Two machines are the same, but for what their outputs held before. -/
structure Machine.Behind (front front' : List UInt8) (m m' : Machine ω) : Prop where
  encoder : Output.Behind front front' m.encoder m'.encoder
  trace : m.trace = m'.trace
  logs : m.logs = m'.logs
  store : m.store = m'.store
  beans : m.beans = m'.beans

/-- Behind what they held before, both outputs take the same pieces. -/
theorem Wire.Output.Behind.writePieces {front front' : List UInt8} {o o' : ω}
    (h : Output.Behind front front' o o') (pieces : List (List UInt8)) :
    ∃ o₁ o₁', Encoder.writePieces pieces o = .ok () o₁ ∧
      Encoder.writePieces pieces o' = .ok () o₁' ∧ Output.Behind front front' o₁ o₁' := by
  obtain ⟨o₁, run, written, first⟩ := exists_writePieces h.first pieces
  obtain ⟨o₁', run', written', second⟩ := exists_writePieces h.second pieces
  obtain ⟨bs, before, before'⟩ := h.added
  refine ⟨o₁, o₁', run, run', ⟨bs ++ pieces.flatten, ?_, ?_⟩, first, second⟩
  · rw [written, before, List.append_assoc]
  · rw [written', before', List.append_assoc]

/-- A pass behind some bytes, and the same pass behind other ones. -/
def behind (env : Env) (front front' : List UInt8) : Coupling env env.settings ω where
  sim := Machine.Behind front front'
  fails e e' := e = e'
  first _ _ _ := False
  second _ _ _ := False
  fits _ := True
  entering h f _ := { h with trace := congrArg (f :: ·) h.trace }
  leaving h _ := { h with trace := congrArg List.tail h.trace }
  fails_at h r := congrArg r.toError h.trace
  tooDeep h deep := by
    rw [h.trace] at deep ⊢
    exact .inl ⟨deep, rfl⟩
  within h deep := h.trace ▸ deep
  logging h typePath := { h with logs := by rw [h.logs, h.trace] }
  omitting {m m'} h typePath := by
    have logged : Machine.Behind front front'
        { m with logs := m.logs ++ [.omitted m.trace typePath] }
        { m' with logs := m'.logs ++ [.omitted m'.trace typePath] } :=
      { h with logs := by rw [h.logs, h.trace] }
    rcases policy : env.settings.missing
    · exact logged
    · trivial
  writing h pieces := by
    obtain ⟨e, e', run, run', written⟩ := h.encoder.writePieces pieces
    rw [run, run']
    exact { h with encoder := written }
  unwrapping {m m'} h v _ := by
    rw [h.store]
    exact .of_self (fun s => { h with store := rfl }) _
  asking {m m'} h type := by
    rw [h.beans]
    exact .of_self (fun b => { h with beans := rfl }) _
  convention h mapping name := by rw [h.store]
  fits_unwrap _ _ _ _ _ _ := trivial
  fits_item _ _ _ _ _ := trivial
  fits_field _ _ _ _ := trivial
  fits_convention _ _ _ _ _ _ _ _ _ := trivial
  first_advances h _ := h
  first_leave h := h
  second_advances h _ := h
  second_leave h := h

/-! ### A value by itself, and as a property -/

/-- Of a value and of a property with this value, both of which were begun on `m`: the machines that
they have left. What was done for the name comes first, and the frame `f` is below all the rest. -/
structure Machine.Follows (f : Frame) (front : List UInt8) (m : Machine ω) (m₁ m₁' : Machine ω) :
    Prop where
  bytes : ∃ bs, m₁.written = m.written ++ bs ∧ m₁'.written = m.written ++ front ++ bs
  lines : ∃ ls : List LogLine, m₁.logs = m.logs ++ ls.map (LogLine.within m.trace) ∧
    m₁'.logs = m.logs ++ ls.map (LogLine.within (f :: m.trace))
  store : m₁.store = m₁'.store
  beans : m₁.beans = m₁'.beans

/-- What becomes of a value, and of a property with this value. A property that was written says so
in the log. -/
inductive Outcome.Named (f : Frame) (front : List UInt8) (maxDepth : Nat) (m : Machine ω)
    (line : LogLine) : Outcome WriteError Unit ω → Outcome WriteError Bool ω → Prop
  | written {m₁ m₁'} (follows : m.Follows f front m₁ m₁') :
      Named f front maxDepth m line (.ok (.ok ()) m₁)
        (.ok (.ok true) { m₁' with logs := m₁'.logs ++ [line] })
  | failed (e : WriteError) {m₁ m₁'} (follows : m.Follows f front m₁ m₁') :
      Named f front maxDepth m line (.ok (.error (e.within m.trace maxDepth)) m₁)
        (.ok (.error (e.within (f :: m.trace) maxDepth)) m₁')
  | aborted (reason) {m₁ m₁'} (follows : m.Follows f front m₁ m₁') :
      Named f front maxDepth m line (.error reason m₁) (.error reason m₁')

theorem Machine.Follows.leave {f : Frame} {front : List UInt8} {m m₁ m₁' : Machine ω}
    (h : m.Follows f front m₁ m₁') : m.Follows f front m₁ m₁'.leave :=
  ⟨h.bytes, h.lines, h.store, h.beans⟩

/-- What is the same behind other bytes, put into surroundings that differ in a frame. -/
theorem Machine.Behind.follows {m s s' : Machine ω} {front : List UInt8}
    (h : s.Behind m.written (m.written ++ front) s') (f : Frame) :
    m.Follows f front (s.within m.trace m.logs) (s'.within (f :: m.trace) m.logs) where
  bytes := h.encoder.added
  lines := ⟨s.logs, rfl, by rw [h.logs]; rfl⟩
  store := h.store
  beans := h.beans

namespace Pass

variable {env : Env}

omit [Output ω] in
/-- How a value is written does not depend on the trace. -/
theorem actionFor_enter (w : Option Value) (f : Frame) (m : Machine ω) :
    actionFor env w (m.enter f) =
      match actionFor env w m with
      | .ok a m₁ => .ok a (m₁.enter f)
      | .error reason m₁ => .error reason (m₁.enter f) := by
  rcases w with _ | v
  · rfl
  rcases found : env.codecs.get? v.typeId with _ | e
  · rw [actionFor_of_no_codec found, actionFor_of_no_codec found, writer?, onBeans, onBeans]
    dsimp only [Machine.enter]
    rcases Beans.writer? env.decls v.typeId m.beans with ⟨_ | d, beans⟩ | ⟨reason, beans⟩ <;> rfl
  · rw [actionFor_of_codec found, actionFor_of_codec found]

omit [Output ω] in
theorem run_writeValue (below : Nested ω) (v : Option Value) (m : Machine ω) :
    (writeValue env below v).run m =
      match (Value.unwrap env.decls v).run m.store with
      | .error reason store => .error reason { m with store }
      | .ok (.error source) store => .ok (.error (.unwrap m.trace source)) { m with store }
      | .ok (.ok w) store =>
        match actionFor env w { m with store } with
        | .error reason m₁ => .error reason m₁
        | .ok none m₁ => .ok (.error (.missingCodec m₁.trace (typePathOf env w))) m₁
        | .ok (some a) m₁ => (below.writeWith a).run m₁ := by
  rw [writeValue, run_bind, run_unwrap]
  rcases (Value.unwrap env.decls v).run m.store with ⟨source | w, store⟩ | ⟨reason, store⟩
  · rfl
  · dsimp only [Outcome.andThen]
    rw [run_bind, run_lift]
    rcases actionFor env w { m with store } with ⟨_ | a, m₁⟩ | ⟨reason, m₁⟩ <;> rfl
  · rfl

theorem run_writeNextProperty (below : Nested ω) {name : String} (named : name ≠ "")
    (v : Option Value) (kind : PropertyKind) (m : Machine ω) :
    (writeNextProperty env below name v kind).run m =
      match (Value.unwrap env.decls v).run m.store with
      | .error reason store => .error reason { m with store }
      | .ok (.error source) store =>
        .ok (.error (.unwrap (.property kind name :: m.trace) source)) { m with store }
      | .ok (.ok w) store =>
        match actionFor env w { m with store } with
        | .error reason m₁ => .error reason (m₁.enter (.property kind name))
        | .ok none m₁ => Outcome.leave ((omitProperty env w).run (m₁.enter (.property kind name)))
        | .ok (some a) m₁ => Outcome.leave ((do
            writeName name
            below.writeWith a
            log (ω := ω) (.written (← Pass.trace (ω := ω)) (w.map (Value.typePath env.decls)))
            return true : AttemptTo ω WriteError Bool).run (m₁.enter (.property kind name))) := by
  rw [writeNextProperty, if_neg named, run_bind, run_unwrap]
  rcases (Value.unwrap env.decls v).run m.store with ⟨source | w, store⟩ | ⟨reason, store⟩
  · rfl
  · dsimp only [Outcome.andThen]
    rw [writeResolvedProperty_eq_framed, run_framed, propertyBody, run_bind, run_lift,
      actionFor_enter]
    rcases actionFor env w { m with store } with ⟨_ | a, m₁⟩ | ⟨reason, m₁⟩ <;> rfl
  · rfl

/-- Where any value fits, every action that is known does. -/
theorem fitting_of_known {settings : Settings} {C : Coupling env settings ω} (all : ∀ v, C.fits v)
    {a : Action} (known : a.Known env) : C.Fitting a := by
  cases a with
  | null => trivial
  | codec e v => exact ⟨known, all v⟩
  | bean d v => exact all v
  | sequence items => exact fun u _ => all u

/-- Begun on `m`, an action does what it does by itself, within what surrounds it. -/
theorem run_action_within (plain : env.codecs.Plain) (depth : Nat) {a : Action}
    (known : a.Known env) (m : Machine ω) {settings : Settings}
    (less : env.settings.less m.trace = settings) :
    ((Nested.ofDepth env depth).writeWith a).run m =
      Outcome.within m.trace env.settings.maxDepth m.logs
        (((Nested.ofDepth (env.under settings) depth).writeWith a).run
          { m with trace := [], logs := [] }) := by
  subst less
  have start :
      (surrounded (ω := ω) env m.trace m.logs).sim m { m with trace := [], logs := [] } := by
    change m = _
    simp [Machine.within]
  have fitting :=
    fitting_of_known (C := surrounded (ω := ω) env m.trace m.logs) (fun _ => trivial) known
  have below := (surrounded (ω := ω) env m.trace m.logs).below_ofDepth plain depth
  have related := below.writeWith fitting start
  generalize ((Nested.ofDepth env depth).writeWith a).run m = r at related
  generalize ((Nested.ofDepth (env.under (env.settings.less m.trace)) depth).writeWith a).run
    { m with trace := [], logs := [] } = r' at related
  cases related with
  | together together =>
    cases together with
    | @done _ m₁ m₁' sim =>
      obtain rfl : m₁ = m₁'.within m.trace m.logs := sim
      rfl
    | @failed e e' m₁ m₁' fails sim =>
      obtain rfl : m₁ = m₁'.within m.trace m.logs := sim
      obtain rfl : e = e'.within m.trace env.settings.maxDepth := fails
      rfl
    | @aborted _ m₁ m₁' sim =>
      obtain rfl : m₁ = m₁'.within m.trace m.logs := sim
      rfl
  | first ended => exact ended.elim
  | second ended => exact ended.elim

/-- What was written before makes no difference to an action. -/
theorem run_action_behind (plain : env.codecs.Plain) (depth : Nat) {a : Action}
    (known : a.Known env) {front front' : List UInt8} {m m' : Machine ω}
    (h : m.Behind front front' m') :
    Alike (Machine.Behind front front') (((Nested.ofDepth env depth).writeWith a).run m)
      (((Nested.ofDepth env depth).writeWith a).run m') := by
  have fitting := fitting_of_known (C := behind (ω := ω) env front front') (fun _ => trivial) known
  have related := ((behind env front front').below_ofDepth plain depth).writeWith fitting h
  exact related.alike (fun _ _ same => same) (fun _ _ _ ended => ended) fun _ _ _ ended => ended

/-- An item is written to a reliable output. -/
theorem exists_run_emit {m : Machine ω} (reliable : Output.Reliable m.encoder) (p : Primitive) :
    ∃ encoder : ω, (emit p).run m = .ok (.ok ()) { m with encoder } ∧
      Output.written encoder = m.written ++ p.encoding ∧ Output.Reliable encoder := by
  obtain ⟨encoder, run, written, still⟩ := exists_writePieces reliable p.pieces
  refine ⟨encoder, ?_, written, still⟩
  rw [run_emit, run]

/-- Once it is known how to write the value of a property, the property is its name followed by its
value. -/
theorem named_of_action (plain : env.codecs.Plain) (depth : Nat) {a : Action}
    (known : a.Known env) {m : Machine ω} (reliable : Output.Reliable m.encoder)
    (kind : PropertyKind) (name : String) (typePath : Option String) (store : Store)
    (beans : Beans) :
    let f := Frame.property kind name
    let s := { m with store, beans }
    Outcome.Named f (Primitive.string name).encoding env.settings.maxDepth m
      (.written (f :: m.trace) typePath) (((Nested.ofDepth env depth).writeWith a).run s)
      (Outcome.leave ((do
        writeName name
        (Nested.ofDepth env depth).writeWith a
        log (ω := ω) (.written (← Pass.trace (ω := ω)) typePath)
        return true : AttemptTo ω WriteError Bool).run (s.enter f))) := by
  intro f s
  obtain ⟨encoder, nameRun, written, still⟩ :=
    exists_run_emit (m := s.enter f) reliable (.string name)
  obtain ⟨settings, less⟩ : ∃ settings, env.settings.less m.trace = settings := ⟨_, rfl⟩
  have less' : env.settings.less (f :: m.trace) = settings := by
    rw [← less, Settings.less, Settings.less, Trace.beanDepth_property]
  -- both times, the value is written as it is by itself, within surroundings of its own
  let alone := (Nested.ofDepth (env.under settings) depth : Nested ω).writeWith a
  let blank : Machine ω := { s with trace := [], logs := [] }
  have valued : ((Nested.ofDepth env depth).writeWith a).run s =
      Outcome.within m.trace env.settings.maxDepth m.logs (alone.run blank) :=
    run_action_within plain depth known s less
  have owned : ((Nested.ofDepth env depth).writeWith a).run { s.enter f with encoder } =
      Outcome.within (f :: m.trace) env.settings.maxDepth m.logs
        (alone.run { blank with encoder }) :=
    run_action_within plain depth known { s.enter f with encoder } less'
  -- by itself, the value is written alike behind the name and without it
  have alike : Alike (Machine.Behind m.written (m.written ++ (Primitive.string name).encoding))
      (alone.run blank) (alone.run { blank with encoder }) :=
    @run_action_behind ω _ (env.under settings) plain depth a known _ _ _ _
      { encoder := ⟨⟨[], (List.append_nil _).symm, written.trans (List.append_nil _).symm⟩,
          reliable, still⟩
        trace := rfl, logs := rfl, store := rfl, beans := rfl }
  have kept {answer : Except WriteError Unit} {m₁ : Machine ω}
      (run : alone.run { blank with encoder } = .ok answer m₁) : m₁.trace = [] :=
    ((proceeds_ofDepth (env.under settings) depth).writeWith a).trace run
  rw [run_bind, writeName, nameRun]
  dsimp only [Outcome.andThen]
  rw [run_bind, valued, owned]
  generalize alone.run blank = r at alike ⊢
  generalize alone.run { blank with encoder } = r' at alike kept ⊢
  cases alike with
  | @ok outcome m₁ m₁' left =>
    rcases outcome with e | ⟨⟩
    · exact .failed e (left.follows f).leave
    · let ended := m₁'.within (f :: m.trace) m.logs
      have there : ended.trace = f :: m.trace := congrArg (· ++ f :: m.trace) (kept rfl)
      change Outcome.Named f _ _ m _ (.ok (.ok ()) (m₁.within m.trace m.logs))
        (.ok (.ok true)
          { ended.leave with logs := ended.logs ++ [.written ended.trace typePath] })
      rw [there]
      exact .written (left.follows f).leave
  | error reason left => exact .aborted reason (left.follows f)

omit [Output ω] in
/-- A property whose value cannot be written is left out, or fails. -/
theorem run_omitProperty (w : Option Value) (m : Machine ω) :
    (omitProperty env w).run m =
      match env.settings.missing with
      | .warn => .ok (.ok false)
          { m with logs := m.logs ++ [.omitted m.trace (typePathOf env w)] }
      | .fail => .ok (.error (.missingCodec m.trace (typePathOf env w))) m := by
  rcases policy : env.settings.missing <;> simp only [omitProperty, policy] <;> rfl

/-- A value is written by itself and as a property, from the same machine.

* A property without a name fails, and nothing is done.
* A value that does not unwrap fails in both ways, and nothing is written.
* A value for which there is no way to write it fails by itself. As a property, it is left out with
  a warning, or it fails, as the policy says. Nothing is written.
* Otherwise, the property is its name followed by what is written of the value, and they come to the
  same, but for the frame of the property. -/
theorem writeNextProperty_beside_writeValue (plain : env.codecs.Plain) {m : Machine ω}
    (reliable : Output.Reliable m.encoder) (depth : Nat) (name : String) (v : Option Value)
    (kind : PropertyKind) :
    let valued := (writeValue env (.ofDepth env depth) v).run m
    let owned := (writeNextProperty env (.ofDepth env depth) name v kind).run m
    let f := Frame.property kind name
    (name = "" → owned = .ok (.error (.emptyPropertyName m.trace)) m) ∧
      (name ≠ "" →
        match (Value.unwrap env.decls v).run m.store with
        | .error reason store =>
          valued = .error reason { m with store } ∧ owned = .error reason { m with store }
        | .ok (.error source) store =>
          valued = .ok (.error (.unwrap m.trace source)) { m with store } ∧
            owned = .ok (.error (.unwrap (f :: m.trace) source)) { m with store }
        | .ok (.ok w) store =>
          match actionFor env w { m with store } with
          | .error reason m₁ => valued = .error reason m₁ ∧ owned = .error reason (m₁.enter f)
          | .ok none m₁ =>
            m₁ = { m with store, beans := m₁.beans } ∧
              valued = .ok (.error (.missingCodec m.trace (typePathOf env w))) m₁ ∧
              owned =
                match env.settings.missing with
                | .warn => .ok (.ok false)
                    { m₁ with logs := m.logs ++ [.omitted (f :: m.trace) (typePathOf env w)] }
                | .fail => .ok (.error (.missingCodec (f :: m.trace) (typePathOf env w))) m₁
          | .ok (some _) _ =>
            Outcome.Named f (Primitive.string name).encoding env.settings.maxDepth m
              (.written (f :: m.trace) (w.map (Value.typePath env.decls))) valued owned) := by
  intro valued owned f
  refine ⟨?_, fun named => ?_⟩
  · rintro rfl
    rfl
  · have valued_eq : valued = _ := run_writeValue _ v m
    have owned_eq : owned = _ := run_writeNextProperty _ named v kind m
    rw [valued_eq, owned_eq]
    rcases (Value.unwrap env.decls v).run m.store with ⟨source | w, store⟩ | ⟨reason, store⟩
    · exact ⟨rfl, rfl⟩
    · dsimp only
      have spec := actionFor_spec env w { m with store }
      rcases found : actionFor env w { m with store } with ⟨_ | a, m₁⟩ | ⟨reason, m₁⟩ <;>
        rw [found] at spec
      · obtain ⟨-, same⟩ := spec
        generalize m₁.beans = beans at same
        subst same
        refine ⟨rfl, rfl, ?_⟩
        dsimp only
        rw [run_omitProperty]
        rcases env.settings.missing <;> rfl
      · obtain ⟨chosen, same⟩ := spec
        have known := chosen.known
        generalize m₁.beans = beans at same
        subst same
        exact named_of_action plain depth known reliable kind name _ store beans
      · exact ⟨rfl, rfl⟩
    · exact ⟨rfl, rfl⟩

/-- A path that a property holds, in the middle of a bean. -/
theorem writeNextProperty_beside_writeValue_path :
    let m : Machine :=
      { encoder := { sink := { written := [7] } }, trace := [.bean "demo::Root"]
        store := { properties := Table.empty.set 0 (some (.scalar (.path [98]))) } }
    let valued := (writeValue Link.env (.ofDepth Link.env 1) (some (.property 0))).run m
    let owned :=
      (writeNextProperty Link.env (.ofDepth Link.env 1) "jar" (some (.property 0)) .input).run m
    ∃ bs m₁ m₁', valued = .ok (.ok ()) m₁ ∧ m₁.written = 7 :: bs ∧
      owned = .ok (.ok true) m₁' ∧ m₁'.written = 7 :: (Primitive.string "jar").encoding ++ bs := by
  intro m valued owned
  have both := (@writeNextProperty_beside_writeValue _ _ Link.env CodecRegistry.plain_builtin m
    (reliable ⟨rfl, nofun⟩) 1 "jar" (some (.property 0)) .input).2 (by decide)
  have unwraps : (Value.unwrap Link.env.decls (some (.property 0))).run m.store =
      .ok (.ok (some (.scalar (.path [98])))) m.store := rfl
  obtain ⟨e, found⟩ : ∃ e, Link.env.codecs.get? (Value.scalar (.path [98])).typeId = some e :=
    Option.isSome_iff_exists.1 (by decide +kernel)
  rw [unwraps] at both
  dsimp only at both
  rw [actionFor_of_codec found] at both
  change Outcome.Named _ _ _ _ _ valued owned at both
  obtain ⟨⟨⟩, m₁, done⟩ := Outcome.exists_of_isDone (r := valued) (by decide +kernel)
  rw [done] at both ⊢
  generalize owned = r at both ⊢
  cases both with
  | written follows =>
    obtain ⟨bs, bytes, bytes'⟩ := follows.bytes
    exact ⟨bs, m₁, _, rfl, bytes, rfl, bytes'⟩

end Pass

end BeanStream
