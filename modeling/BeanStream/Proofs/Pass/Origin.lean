import BeanStream.Proofs.Codec.Relays
import BeanStream.Proofs.Pass.Dispatch
import BeanStream.Proofs.Pass.Moments
import BeanStream.Proofs.Pass.Noted

/-!
# Where a failure comes from

A failure of a write passes through sequences, beans and codecs on its way to the caller, and is
turned into a failure of a codec and back each time it leaves one. To tell whether it is still the
same in the end, each failure is **noted where it is made** (`incidents`): a codec that fails for a
reason of its own, and the making of a failure of a write, each with the machine that it was made
on.

Main fact: where codecs propagate failures, a pass that fails has made **one failure, and this is
what the caller sees**; frames were taken off after that, and nothing else was done. If the failure
is one of a codec, then one codec failed for a reason of its own, right before (`Arises`). A pass
that does not fail has made none (`Call.failure_made_once`).
-/

namespace BeanStream

open Wire Pass

variable {ω : Type}

/-- Something that goes wrong in a pass, with the machine that is left behind. -/
inductive Incident (ω : Type := Encoder) where
  /-- The codec of `v` fails for a reason of its own. -/
  | refused (v : Value) (reason : CodecError) (m : Machine ω)
  /-- A failure of a write is made. -/
  | made (e : WriteError) (m : Machine ω)

/-- Everything that goes wrong is noted, and nothing else. -/
def incidents : Notes ω (Incident ω) where
  refused v reason m := [.refused v reason m]
  made e m := [.made e m]

/-! ### What is made of a failure -/

/-- The failure is not one of a codec, and was made on `m`: if it keeps a trace, it is that of `m`,
below the frame of the property in question where its value could not be unwrapped. -/
inductive WriteError.MadeOn (m : Machine ω) : WriteError → Prop
  | unwrap (source) : MadeOn m (.unwrap m.trace source)
  | unwrapProperty (kind name source) :
      MadeOn m (.unwrap (.property kind name :: m.trace) source)
  | missingCodec (typePath) : MadeOn m (.missingCodec m.trace typePath)
  | unknownBean (typePath) : MadeOn m (.unknownBean typePath)
  | fieldAccess (bean field typePath) : MadeOn m (.fieldAccess bean field typePath)
  | emptyPropertyName : MadeOn m (.emptyPropertyName m.trace)
  | tooDeep (maxDepth) : MadeOn m (.tooDeep m.trace maxDepth)
  | io (source) : MadeOn m (.io m.trace source)

/-- How a failure of a write arises: what goes wrong for it, and the machine that it is made on. -/
inductive Arises (env : Env) : WriteError → List (Incident ω) → Machine ω → Prop
  /-- It is made, and that is all. -/
  | write {e m} (h : e.MadeOn m) : Arises env e [.made e m] m
  /-- The codec of `v` fails for a reason of its own, and this is made into the failure. -/
  | codec {v : Value} {reason m} (own : ∀ source, reason ≠ .nested source) :
      Arises env (.codec m.trace (v.typePath env.decls) reason)
        [.refused v reason m, .made (.codec m.trace (v.typePath env.decls) reason) m] m

/-- A failure of a codec is made from what the codec failed with, and has the type path of the value
that the codec was to write. -/
theorem Arises.exists_refused {env : Env} {t : Trace} {typePath : String} {reason : CodecError}
    {incidents : List (Incident ω)} {m : Machine ω}
    (h : Arises env (.codec t typePath reason) incidents m) :
    ∃ v : Value, v.typePath env.decls = typePath ∧
      incidents = [.refused v reason m, .made (.codec t typePath reason) m] := by
  cases h with
  | write other => cases other
  | @codec v reason m own => exact ⟨v, rfl, rfl⟩

/-- How a failure arises inside of a codec: in a nested write, or as one that is the codec's own and
nothing has been made of yet. -/
inductive ArisesInside (env : Env) : CodecError → List (Incident ω) → Machine ω → Prop
  | nested {source incidents m} (h : Arises env source incidents m) :
      ArisesInside env (.nested source) incidents m
  | own {reason m} (own : ∀ source, reason ≠ .nested source) : ArisesInside env reason [] m

namespace Pass

variable {ε δ α β : Type} {arises : ε → List (Incident ω) → Machine ω → Prop}

/-- What became of a computation that was begun with the trace `outer` and the incidents `earlier`:
nothing went wrong unless it failed, and then as `arises` says. -/
inductive Accounts (arises : ε → List (Incident ω) → Machine ω → Prop) (outer : Trace)
    (earlier : List (Incident ω)) : Account ω (Incident ω) ε α → Prop
  | done (a) {m} (restored : m.trace = outer) :
      Accounts arises outer earlier (.ok (.ok a) { machine := m, notes := earlier })
  /-- The machine is the one that the failure was made on, but for frames that were taken off. -/
  | failed {e notes m m'} (h : arises e notes m) (left : m' = { m with trace := outer }) :
      Accounts arises outer earlier
        (.ok (.error e) { machine := m', notes := earlier ++ notes })
  | aborted (reason m) :
      Accounts arises outer earlier (.error reason { machine := m, notes := earlier })

/-- Whatever goes wrong in the computation is told by its incidents. -/
def Records (arises : ε → List (Incident ω) → Machine ω → Prop)
    (x : Noting ω (Incident ω) ε α) : Prop :=
  ∀ t, Accounts arises t.machine.trace t.notes (x.run t)

/-! ### One rule for each way to put computations together -/

theorem records_pure (a : α) : Records arises (pure a) := fun _ => .done a rfl

namespace Records

variable {x : Noting ω (Incident ω) ε β} {f : β → Noting ω (Incident ω) ε α}

theorem bind (first : Records arises x)
    (next : ∀ b t t', x.run t = .ok (.ok b) t' → Records arises (f b)) :
    Records arises (x >>= f) := by
  intro t
  rw [noting_run_bind]
  have account := first t
  generalize run : x.run t = r at account
  cases account with
  | @done b m₁ restored =>
    have rest := next b _ _ run { machine := m₁, notes := t.notes }
    dsimp only at rest
    rw [restored] at rest
    exact rest
  | failed h left => exact .failed h left
  | aborted reason m => exact .aborted reason m

theorem discard (h : Records arises x) : Records arises (discard x) := by
  rw [discard_eq_bind]
  exact h.bind fun _ _ _ _ => records_pure _

/-- The frame is taken off behind the body, and the failure has been made by then. -/
theorem framed (h : Records arises x) (frame : Frame) : Records arises (noteFramed frame x) := by
  intro t
  rw [noteFramed_run]
  have account := h { t with machine := t.machine.enter frame }
  dsimp only at account
  generalize x.run { t with machine := t.machine.enter frame } = r at account
  cases account with
  | done b restored => exact .done b (Machine.trace_leave_of_enter restored)
  | failed h left =>
    refine .failed h ?_
    rw [left]
    rfl
  | aborted reason m => exact .aborted reason m

/-- A failure is passed on, as `pass` makes it one of another kind: nothing new arises. -/
theorem passOn {arises' : δ → List (Incident ω) → Machine ω → Prop}
    {f : Except ε β → Noting ω (Incident ω) δ α} (h : Records arises x) (pass : ε → δ)
    (passes : ∀ e, f (.error e) = throw (pass e))
    (same : ∀ {e notes m}, arises e notes m → arises' (pass e) notes m)
    (next : ∀ b, Records arises' (f (.ok b))) : Records arises' (noteOutcome x >>= f) := by
  intro t
  rw [noteOutcome_run_bind]
  have account := h t
  generalize x.run t = r at account
  cases account with
  | @done b m₁ restored =>
    have rest := next b { machine := m₁, notes := t.notes }
    dsimp only at rest
    rw [restored] at rest
    exact rest
  | @failed e _ _ _ h left =>
    dsimp only
    rw [passes]
    exact .failed (same h) left
  | aborted reason m => exact .aborted reason m

/-- Where nothing is made of a failure, it is for what follows to go on with. -/
theorem told {x : AttemptTo ω ε β} {arises' : δ → List (Incident ω) → Machine ω → Prop}
    {f : Except ε β → Noting ω (Incident ω) δ α} (h : Elementary x)
    (next : ∀ answer, Records arises' (f answer)) :
    Records arises' (noteOutcome (silently x) >>= f) := by
  intro t
  rw [noteOutcome_run_bind, run_silently]
  have kept := h.trace_eq t.machine
  generalize x.run t.machine = r at kept
  rcases r with ⟨answer, m⟩ | ⟨reason, m⟩
  · have rest := next answer { machine := m, notes := t.notes }
    rw [show m.trace = t.machine.trace from kept] at rest
    exact rest
  · exact .aborted reason m

end Records

/-! ### Operations that are not made of others -/

/-- What cannot fail makes no failures. -/
theorem records_lift {x : PassTo ω α} (kept : ∀ {m a m'}, x m = .ok a m' → m'.trace = m.trace) :
    Records arises (silently (liftM x)) := by
  intro t
  rw [run_silently, run_lift]
  rcases run : x t.machine with ⟨a, m⟩ | ⟨reason, m⟩
  · exact .done a (kept run)
  · exact .aborted reason m

theorem records_trace : Records arises (silently (liftM (Pass.trace (ω := ω)))) :=
  records_lift fun {_ _ _} run => by
    cases run
    rfl

theorem records_log (line : LogLine) : Records arises (silently (liftM (log (ω := ω) line))) :=
  records_lift fun {_ _ _} run => by
    cases run
    rfl

theorem records_writer? (env : Env) (type : TypeId) :
    Records arises (silently (liftM (writer? (ω := ω) env type))) :=
  records_lift fun {m d m'} run => by
    have found : (liftM (writer? env type) : AttemptTo ω ε _).run m = .ok (.ok d) m' := by
      rw [run_lift, run]
    obtain ⟨beans, rfl⟩ := beans_of_writer? found
    rfl

theorem records_actionFor (env : Env) (v : Option Value) :
    Records arises (silently (liftM (actionFor (ω := ω) env v))) :=
  records_lift fun {m a m'} run => by
    have spec := actionFor_spec env v m
    rw [run] at spec
    rw [spec.2]

/-- A way that was found is known. -/
theorem known_of_silently {env : Env} {v : Option Value} {a : Action}
    {t t' : Noted ω (Incident ω)}
    (found : (silently (liftM (actionFor env v) : AttemptTo ω ε _)).run t = .ok (.ok (some a)) t') :
    a.Known env := by
  rw [run_silently] at found
  rcases run : (liftM (actionFor env v) : AttemptTo ω ε _).run t.machine with
    ⟨answer, m⟩ | ⟨reason, m⟩ <;> rw [run] at found <;> cases found
  exact known_of_actionFor run

theorem records_abort (reason : Abort) :
    Records arises (silently (abort reason : AttemptTo ω ε α)) := by
  intro t
  rw [run_silently]
  exact .aborted reason t.machine

section Making

variable {env : Env}

/-- How a computation ends whose failures are its own. -/
def OwnFailures (α : Type) (m : Machine ω) : Ending WriteError α ω where
  done _ m' := m'.trace = m.trace
  failed e m' := e.MadeOn m' ∧ m'.trace = m.trace
  aborted _ _ := True

/-- What is told of the machine before does not matter, unless it is an incident. -/
theorem records_making {x : AttemptTo ω WriteError α}
    (h : ∀ m, Meets x m (OwnFailures α m)) : Records (Arises env) (making incidents x) := by
  intro t
  have spec := h t.machine
  change Accounts _ _ _ (Outcome.noted (t.notes ++ incidents.madeBy (x.run t.machine))
    (x.run t.machine))
  rcases run : x.run t.machine with ⟨e | a, m⟩ | ⟨reason, m⟩
  · obtain ⟨made, kept⟩ := spec.failed run
    refine .failed (.write made) ?_
    rw [← kept]
  · simp only [Notes.madeBy, List.append_nil]
    exact .done a (spec.done run)
  · simp only [Notes.madeBy, List.append_nil]
    exact .aborted reason m

theorem records_failAt {reason : Trace → WriteError}
    (made : ∀ m : Machine ω, (reason m.trace).MadeOn m) :
    Records (α := α) (Arises env) (making incidents (failAt (ω := ω) reason)) :=
  records_making fun m => (meets_failAt reason).2 ⟨made m, rfl⟩

theorem records_throw {e : WriteError} (made : ∀ m : Machine ω, e.MadeOn m) :
    Records (Arises env) (making incidents (throw e : AttemptTo ω WriteError α)) :=
  records_making fun m => ⟨made m, rfl⟩

theorem records_emit [Output ω] (p : Primitive) :
    Records (Arises env) (making incidents (emit (ω := ω) p)) := by
  refine records_making fun m => (meets_emit p).2 ?_
  rcases Encoder.write p m.encoder with ⟨⟨⟩, encoder⟩ | ⟨source, encoder⟩
  · rfl
  · exact ⟨.io source, rfl⟩

/-- That containers are opened is no incident. -/
theorem records_noteUnwrap {frame : List Frame}
    (made : ∀ (m : Machine ω) source, WriteError.MadeOn m (.unwrap (frame ++ m.trace) source))
    (v : Option Value) : Records (Arises env) (noteUnwrap (ω := ω) incidents env frame v) := by
  refine records_making fun m => (meets_unwrap env frame v).2 ?_
  rcases (Value.unwrap env.decls v).run m.store with ⟨source | w, store⟩ | ⟨reason, store⟩
  · exact ⟨made { m with store } source, rfl⟩
  · rfl
  · trivial

/-- That the conventions are asked is no incident. -/
theorem records_noteConvention (mapping : Nat) (name : String) :
    Records (Arises env) (noteConvention (ω := ω) incidents mapping name) := by
  intro t
  change Accounts _ _ _ (.ok (.ok _) { machine := t.machine, notes := t.notes ++ [] })
  rw [List.append_nil]
  exact .done _ rfl

theorem records_omitProperty (v : Option Value) :
    Records (Arises env) (making incidents (omitProperty (ω := ω) env v)) := by
  refine records_making fun m => ?_
  dsimp only [omitProperty]
  split
  · simp only [meets_bind, meets_trace, meets_log, meets_pure, OwnFailures]
  · exact (meets_failAt _).2 ⟨.missingCodec _, rfl⟩

/-- A codec fails for a reason of its own. -/
theorem records_refusal {reason : CodecError} (own : ∀ source, reason ≠ .nested source) :
    Records (ArisesInside (ω := ω) env) (throw reason : Noting ω (Incident ω) CodecError α) := by
  intro t
  have account : Accounts (α := α) (ArisesInside (ω := ω) env) t.machine.trace t.notes _ :=
    .failed (.own (m := t.machine) own) rfl
  rw [List.append_nil] at account
  exact account

/-- What a codec fails with is made into a failure of a write, unless it is one. -/
theorem records_answer {v : Value} {x : Noting ω (Incident ω) CodecError Unit}
    (h : Records (ArisesInside env) x) :
    Records (Arises env) (noteOutcome (refusing incidents v x) >>= noteAnswer incidents env v) := by
  intro t
  rw [noteOutcome_run_bind, refusing_run]
  have account := h t
  generalize x.run t = r at account
  cases account with
  | done a restored =>
    simp only [Notes.refusedBy, List.append_nil]
    exact .done () restored
  | aborted reason m => exact .aborted reason m
  | @failed reason notes m m' arises left =>
    cases arises with
    | nested arises =>
      simp only [Notes.refusedBy, List.append_nil]
      exact .failed arises left
    | own own =>
      -- the codec's failure is noted first, and then what is made of it
      have made : Accounts (α := Unit) (Arises env) t.machine.trace t.notes
          (.ok (.error (.codec m'.trace (v.typePath env.decls) reason))
            { machine := m', notes := t.notes ++ _ }) :=
        .failed (.codec own) (by rw [left])
      rw [List.append_cons] at made
      dsimp only
      rw [Notes.refusedBy_own _ own, List.append_nil, noteAnswer_own _ _ own]
      exact made

end Making

end Pass

/-! ### What goes wrong in a pass -/

/-- The codec of an action propagates failures. -/
def Action.Propagates : Action → Prop
  | .codec e v => (e.codec v).Propagates
  | _ => True

theorem Action.Known.propagates {env : Env} (codecs : env.codecs.Propagates) {a : Action}
    (known : a.Known env) : a.Propagates := by
  cases a with
  | codec e v => exact codecs known v
  | _ => trivial

/-- Whatever goes wrong in the writes of a level is told, where codecs propagate failures. -/
def NotingNested.Records (env : Env) (below : NotingNested ω (Incident ω)) : Prop :=
  ∀ a : Action, a.Propagates → Pass.Records (Arises env) (below.writeWith a)

namespace Pass

section Operations

variable {env : Env} {below : NotingNested ω (Incident ω)}
  (codecs : env.codecs.Propagates) (h : below.Records env)

include codecs h

theorem records_noteValue (v : Option Value) :
    Records (Arises env) (noteValue incidents env below v) := by
  refine (records_noteUnwrap (fun _ => .unwrap) v).bind fun w _ _ _ => ?_
  refine (records_actionFor env w).bind fun a _ _ found => ?_
  rcases a with _ | a
  · exact records_failAt fun _ => .missingCodec _
  · exact h a ((known_of_silently found).propagates codecs)

theorem records_noteElements (index : Nat) (vs : List Value) :
    Records (Arises env) (noteElements incidents env below index vs) := by
  induction vs generalizing index with
  | nil => exact records_pure ()
  | cons v vs ih =>
    exact ((records_noteValue codecs h (some v)).framed _).bind fun _ _ _ _ => ih (index + 1)

variable [Output ω]

theorem records_noteResolvedProperty (kind : PropertyKind) (name : String) (w : Option Value) :
    Records (Arises env) (noteResolvedProperty incidents env below kind name w) := by
  refine Records.framed ((records_actionFor env w).bind fun a _ _ found => ?_) _
  rcases a with _ | a
  · exact records_omitProperty w
  · have written := h a ((known_of_silently found).propagates codecs)
    exact (records_emit _).bind fun _ _ _ _ => written.bind fun _ _ _ _ =>
      records_trace.bind fun _ _ _ _ => (records_log _).bind fun _ _ _ _ => records_pure true

theorem records_noteNextProperty (name : String) (v : Option Value) (kind : PropertyKind) :
    Records (Arises env) (noteNextProperty incidents env below name v kind) := by
  unfold noteNextProperty
  split
  · exact records_failAt fun _ => .emptyPropertyName
  · exact (records_noteUnwrap (fun _ => .unwrapProperty kind name) v).bind fun w _ _ _ =>
      records_noteResolvedProperty codecs h kind name w

theorem records_noteField (d : Descriptor) (v : Value) (conventions : Option Nat) (f : Field) :
    Records (Arises env) (noteField incidents env below d v conventions f) := by
  have property (w : Option Value) := (records_noteNextProperty codecs h f.name w .field).discard
  unfold noteField
  rcases d.read f v with _ | raw
  · exact records_throw fun _ => .fieldAccess ..
  rcases conventions with _ | mapping
  · exact property (some raw)
  · refine (records_noteUnwrap (fun _ => .unwrapProperty .field f.name) (some raw)).bind
      fun own _ _ _ => ?_
    rcases own with _ | content
    · exact (records_noteConvention mapping f.name).bind fun fallback _ _ _ => property fallback
    · exact property (some content)

theorem records_noteFields (d : Descriptor) (v : Value) (conventions : Option Nat)
    (fs : List Field) :
    Records (Arises env) (noteFields incidents env below d v conventions fs) := by
  induction fs with
  | nil => exact records_pure ()
  | cons f fs ih => exact (records_noteField codecs h d v conventions f).bind fun _ _ _ _ => ih

theorem records_noteFieldsOf (d : Descriptor) (v : Value) :
    Records (Arises env) (noteFieldsOf incidents env below d v) := by
  refine records_trace.bind fun t _ _ _ => ?_
  split
  · exact records_failAt fun _ => .tooDeep _
  · have fields := records_noteFields codecs h d v (d.conventionsOf v) d.fields
    exact (fields.bind fun _ _ _ _ => records_emit _).framed _

theorem records_noteBean (v : Value) : Records (Arises env) (noteBean incidents env below v) := by
  refine (records_writer? env v.typeId).bind fun d _ _ _ => ?_
  rcases d with _ | d
  · exact records_throw fun _ => .unknownBean _
  · exact records_noteFieldsOf codecs h d v

/-- What goes wrong while a codec runs went wrong in one of its nested writes, or nothing has been
made of it yet. -/
theorem records_noteRun {s : Script} (propagates : s.Propagates) :
    Records (ArisesInside env) (noteRun incidents env below s) := by
  have nested {α : Type} {x : Noting ω (Incident ω) WriteError α}
      {next : Except WriteError α → Script} (written : Records (Arises env) x)
      (relays : ∀ source, next (.error source) = .fail (.nested source))
      (goesOn : ∀ a, Records (ArisesInside env) (noteRun incidents env below (next (.ok a)))) :
      Records (ArisesInside env)
        (noteOutcome x >>= fun r => noteRun incidents env below (next r)) := by
    refine written.passOn .nested (fun source => ?_) .nested goesOn
    rw [relays]
    rfl
  induction propagates with
  | done => exact records_pure ()
  | fail own => exact records_refusal own
  | write _ ih => exact Records.told (.onEncoder _) ih
  | tree _ ih => exact Records.told (.onEncoder _) ih
  | value _ relays ih => exact nested (records_noteValue codecs h _) relays fun _ => ih
  | bean _ relays ih => exact nested (records_noteBean codecs h _) relays fun _ => ih
  | property _ relays ih => exact nested (records_noteNextProperty codecs h _ _ _) relays ih
  | name _ relays ih => exact nested (records_emit _) relays fun _ => ih
  | framed _ _ relays inside ih =>
    refine (inside.framed _).passOn id (fun reason => ?_) id fun _ => ih
    rw [relays]
    rfl
  | context _ ih => exact records_trace.bind fun t _ _ _ => ih t env.settings
  | knows _ ih => exact (records_writer? env _).bind fun d _ _ _ => ih d.isSome

theorem records_notePayload {a : Action} (propagates : a.Propagates) :
    Records (Arises env) (notePayload incidents env below a) := by
  cases a with
  | null => exact records_pure ()
  | codec e v =>
    refine records_answer (?_ : Records _ (if v.typeId = e.type then _ else _))
    split
    · exact records_noteRun codecs h propagates
    · exact records_refusal nofun
  | bean d v =>
    exact (records_emit _).bind fun _ _ _ _ => records_noteFieldsOf codecs h d v
  | sequence items =>
    exact (records_emit _).bind fun _ _ _ _ => records_noteElements codecs h 0 items

theorem records_noteWith {a : Action} (propagates : a.Propagates) :
    Records (Arises env) (noteWith incidents env below a) :=
  (records_emit _).bind fun _ _ _ _ => records_notePayload codecs h propagates

end Operations

/-- Whatever goes wrong in the writes of any level is told. -/
theorem records_ofDepth [Output ω] {env : Env} (codecs : env.codecs.Propagates) (depth : Nat) :
    (NotingNested.ofDepth (ω := ω) incidents env depth).Records env := by
  induction depth with
  | zero => exact fun _ _ => records_abort .overflow
  | succ depth ih => exact fun _ => records_noteWith codecs ih

end Pass

namespace Call

variable [Output ω]

/-- Whatever goes wrong in a call is told. -/
theorem records_noted {env : Env} (codecs : env.codecs.Propagates) (c : Call) (depth : Nat) :
    Records (Arises env) (c.noted (ω := ω) incidents env (.ofDepth incidents env depth)) := by
  have below := records_ofDepth (ω := ω) codecs depth
  cases c with
  | value v => exact records_noteValue codecs below v
  | property name v kind => exact records_noteNextProperty codecs below name v kind
  | bean v => exact records_noteBean codecs below v

/-- A call fails with the one failure that was made, at the point where it arose, and codecs, beans
and sequences around this point make nothing else of it; a call that does not fail has made none. -/
theorem failure_made_once {env : Env} (codecs : env.codecs.Propagates) (c : Call) (depth : Nat)
    (m : Machine ω) :
    let r := (c.run env (.ofDepth env depth)).run m
    let t := (c.noted incidents env (.ofDepth incidents env depth)).run { machine := m }
    (∀ a m', r = .ok (.ok a) m' → t = .ok (.ok a) { machine := m' }) ∧
      (∀ reason m', r = .error reason m' → t = .error reason { machine := m' }) ∧
      ∀ e m', r = .ok (.error e) m' → ∃ notes m₁,
        t = .ok (.error e) { machine := m', notes } ∧ Arises env e notes m₁ ∧
          m' = { m₁ with trace := m.trace } := by
  intro r t
  have account : Accounts (Arises env) m.trace [] t := records_noted codecs c depth { machine := m }
  obtain ⟨told, observed⟩ := c.erases_noted (ω := ω) incidents env depth
  have same : t = Outcome.noted ([] ++ told m) r := observed { machine := m }
  rw [List.nil_append] at same
  generalize told m = notes at same
  refine ⟨fun a m' run => ?_, fun reason m' run => ?_, fun e m' run => ?_⟩ <;>
    rw [same, run] at account <;> rw [same, run]
  · cases account
    rfl
  · cases account
    rfl
  · cases account with
    | @failed _ notes m₁ _ arises left => exact ⟨notes, m₁, rfl, arises, left⟩

/-- What is told of a path that is no text. -/
private def pathRefusal? {α : Type} : Outcome WriteError α → Option (Trace × String × List UInt8)
  | .ok (.error (.codec t typePath (.invalidPath bs))) _ => some (t, typePath, bs)
  | _ => none

private theorem exists_of_pathRefusal? {α : Type} {t : Trace} {typePath : String} {bs : List UInt8}
    {r : Outcome WriteError α} (h : pathRefusal? r = some (t, typePath, bs)) :
    ∃ m, r = .ok (.error (.codec t typePath (.invalidPath bs))) m := by
  unfold pathRefusal? at h
  split at h
  · cases h
    exact ⟨_, rfl⟩
  · cases h

/-- A link whose name is no text, in a value whose codec leaves it to the pass: the failure is the
one of the codec for the name. -/
theorem failure_made_once_link :
    let codecs := (CodecRegistry.builtin.register (.named "demo::Box") Link.inside).2
    let env := { Link.env with codecs }
    let boxed : Value := .custom "demo::Box" "" (some (Link.link none [255]))
    let c := Call.bean (Link.link (some boxed) [97])
    let e : WriteError := .codec
      [.property .field "name", .bean "demo::Link", .property .field "next", .bean "demo::Link"]
      "std::path::PathBuf" (.invalidPath [255])
    ∃ v m₁ m', (c.noted incidents env (.ofDepth incidents env 5)).run { machine := Link.machine } =
        .ok (.error e)
          { machine := m', notes := [.refused v (.invalidPath [255]) m₁, .made e m₁] } ∧
      v.typePath env.decls = "std::path::PathBuf" := by
  intro codecs env boxed c e
  have propagates : codecs.Propagates := by
    refine CodecRegistry.propagates_builtin.register _ fun v => ?_
    cases v with
    | custom => exact .value .done fun _ => rfl
    | _ => exact .done
  obtain ⟨m', run⟩ : ∃ m', (c.run env (.ofDepth env 5)).run Link.machine = .ok (.error e) m' :=
    exists_of_pathRefusal? (by decide +kernel)
  obtain ⟨-, -, failed⟩ := @failure_made_once _ _ env propagates c 5 Link.machine
  obtain ⟨notes, m₁, account, arises, -⟩ := failed e m' run
  obtain ⟨v, path, rfl⟩ := arises.exists_refused
  exact ⟨v, m₁, m', account, path⟩

end Call

end BeanStream
