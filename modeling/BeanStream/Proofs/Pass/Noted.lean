import BeanStream.Proofs.Pass.Depth

/-!
# Passes with notes

Where a failure was made, and what was asked on the way to a value, does not show in what becomes of
a pass. So it is **noted**, by a pass that does the same in all other respects. What is worth a note
is a parameter (`Notes`): the opening of containers, the look at conventions, the making of a
failure, the refusal of a codec. A computation of this pass carries its notes behind the earlier
ones.

Main fact: whatever is noted, and whatever codecs do, **notes change nothing**. A call with notes
ends as the call without them, in the same value or failure and on the same machine
(`Call.erases_noted`).
-/

namespace BeanStream

open Wire Pass

variable {ω ν ε δ α β : Type}

/-- A machine, and what was noted so far. -/
structure Noted (ω ν : Type) where
  machine : Machine ω
  notes : List ν := []

/-- Computations of a pass with notes. -/
abbrev Noting (ω ν ε α : Type) := ExceptT ε (EStateM Abort (Noted ω ν)) α

/-- What becomes of a computation with notes. -/
abbrev Account (ω ν ε α : Type) := EStateM.Result Abort (Noted ω ν) (Except ε α)

/-- What became of a computation, with these notes. -/
def Outcome.noted (notes : List ν) : Outcome ε α ω → Account ω ν ε α
  | .ok answer machine => .ok answer { machine, notes }
  | .error reason machine => .error reason { machine, notes }

/-- What is worth a note, and the machine that this is told of. -/
structure Notes (ω ν : Type) where
  /-- The containers of a value are opened. -/
  opened : Option Value → Machine ω → List ν := fun _ _ => []
  /-- The conventions are asked for the value of a field. -/
  asked : String → Machine ω → List ν := fun _ _ => []
  /-- The codec of a value fails for a reason of its own. -/
  refused : Value → CodecError → Machine ω → List ν := fun _ _ _ => []
  /-- A failure of a write is made. -/
  made : WriteError → Machine ω → List ν := fun _ _ => []

namespace Notes

variable (notes : Notes ω ν)

/-- The note on the failure that a computation made, if it failed. -/
def madeBy : Outcome WriteError α ω → List ν
  | .ok (.error e) m => notes.made e m
  | _ => []

/-- The note on the codec of `v`, if it failed for a reason of its own. -/
def refusedBy (v : Value) : Except CodecError α → Machine ω → List ν
  | .error (.nested _), _ => []
  | .error reason, m => notes.refused v reason m
  | .ok _, _ => []

theorem refusedBy_own {reason : CodecError} (own : ∀ source, reason ≠ .nested source) (v : Value)
    (m : Machine ω) :
    notes.refusedBy v (.error reason : Except CodecError α) m = notes.refused v reason m := by
  cases reason with
  | nested source => exact absurd rfl (own source)
  | _ => rfl

end Notes

/-- A failure of a codec that is its own is put into one of a write. -/
theorem WriteError.ofCodec_own {reason : CodecError} (own : ∀ source, reason ≠ .nested source)
    (trace : Trace) (typePath : String) :
    WriteError.ofCodec trace typePath reason = .codec trace typePath reason := by
  cases reason with
  | nested source => exact absurd rfl (own source)
  | _ => rfl

/-- How values one level below are written, with notes. -/
structure NotingNested (ω ν : Type) where
  /-- Writes the tag and payload of an action. -/
  writeWith : Action → Noting ω ν WriteError Unit
  /-- Writes a value by a codec, without tag. -/
  encode : Entry → Value → Noting ω ν CodecError Unit

namespace Pass

/-! ### A pass with notes -/

/-- Notes what is to be told of the machine that a computation is run on, and of what becomes of
it. -/
def noting (tell : Machine ω → Outcome ε α ω → List ν) (x : AttemptTo ω ε α) : Noting ω ν ε α :=
  fun t => Outcome.noted (t.notes ++ tell t.machine (x.run t.machine)) (x.run t.machine)

/-- Notes nothing. -/
def silently (x : AttemptTo ω ε α) : Noting ω ν ε α := noting (fun _ _ => []) x

/-- Runs `body` under a frame (`framed`). -/
def noteFramed (f : Frame) (body : Noting ω ν ε α) : Noting ω ν ε α := fun t =>
  match body.run { t with machine := t.machine.enter f } with
  | .ok answer t' => .ok answer { t' with machine := t'.machine.leave }
  | .error reason t' => .error reason t'

/-- What becomes of a computation, for another one to go on with (`outcome`). -/
def noteOutcome (x : Noting ω ν δ α) : Noting ω ν ε (Except δ α) := ExceptT.lift x.run

section Programs

variable (notes : Notes ω ν)

/-- A computation whose failures are its own. -/
def making (x : AttemptTo ω WriteError α) : Noting ω ν WriteError α :=
  noting (fun _ => notes.madeBy) x

/-- The codec of `v`: its failures are its own, but for those of nested writes. -/
def refusing (v : Value) (x : Noting ω ν CodecError α) : Noting ω ν CodecError α := fun t =>
  match x.run t with
  | .ok answer t' => .ok answer { t' with notes := t'.notes ++ notes.refusedBy v answer t'.machine }
  | .error reason t' => .error reason t'

variable (env : Env)

/-- Unwraps a value (`unwrap`), whose containers are opened for this. -/
def noteUnwrap (frame : List Frame) (v : Option Value) : Noting ω ν WriteError (Option Value) :=
  noting (fun m r => notes.opened v m ++ notes.madeBy r) (unwrap env frame v)

/-- Looks up the value that the conventions have for a field. -/
def noteConvention (mapping : Nat) (name : String) : Noting ω ν WriteError (Option Value) :=
  noting (fun m _ => notes.asked name m) do
    return (← getThe (Machine ω)).store.conventionValue mapping name

variable [Output ω] (below : NotingNested ω ν)

/-- Writes a value with its tag (`writeValue`). -/
def noteValue (v : Option Value) : Noting ω ν WriteError Unit := do
  let v ← noteUnwrap notes env [] v
  match ← silently (actionFor (ω := ω) env v) with
  | some action => below.writeWith action
  | none => making notes (failAt (.missingCodec · (typePathOf env v)))

/-- Writes elements (`writeElements`). -/
def noteElements : (index : Nat) → List Value → Noting ω ν WriteError Unit
  | _, [] => return
  | index, v :: vs => do
    noteFramed (.element index) (noteValue notes env below (some v))
    noteElements (index + 1) vs

/-- Writes a property whose value is not deferred (`writeResolvedProperty`). -/
def noteResolvedProperty (kind : PropertyKind) (name : String) (v : Option Value) :
    Noting ω ν WriteError Bool :=
  noteFramed (.property kind name) do
    match ← silently (actionFor (ω := ω) env v) with
    | none => making notes (omitProperty env v)
    | some action =>
      making notes (writeName name)
      below.writeWith action
      let trace ← silently (trace (ω := ω))
      silently (log (ω := ω) (.written trace (v.map (Value.typePath env.decls))))
      return true

/-- Writes a property (`writeNextProperty`). -/
def noteNextProperty (name : String) (v : Option Value) (kind : PropertyKind) :
    Noting ω ν WriteError Bool := do
  if name = "" then making notes (failAt .emptyPropertyName)
  else
    let v ← noteUnwrap notes env [.property kind name] v
    noteResolvedProperty notes env below kind name v

/-- Writes a field (`writeField`). -/
def noteField (d : Descriptor) (v : Value) (conventions : Option Nat) (f : Field) :
    Noting ω ν WriteError Unit := do
  match d.read f v with
  | none => making notes (throw (.fieldAccess d.path f.name (v.typePath env.decls)))
  | some raw =>
    match conventions with
    | none => discard <| noteNextProperty notes env below f.name (some raw) .field
    | some mapping =>
      match ← noteUnwrap notes env [.property .field f.name] (some raw) with
      | some content => discard <| noteNextProperty notes env below f.name (some content) .field
      | none =>
        let fallback ← noteConvention notes mapping f.name
        discard <| noteNextProperty notes env below f.name fallback .field

/-- Writes fields in order (`writeFields`). -/
def noteFields (d : Descriptor) (v : Value) (conventions : Option Nat) :
    List Field → Noting ω ν WriteError Unit
  | [] => return
  | f :: fs => do
    noteField notes env below d v conventions f
    noteFields d v conventions fs

/-- Writes the properties of an instance of a bean (`writeFieldsOf`). -/
def noteFieldsOf (d : Descriptor) (v : Value) : Noting ω ν WriteError Unit := do
  let trace ← silently (trace (ω := ω))
  if trace.beanDepth ≥ env.settings.maxDepth then
    making notes (failAt (.tooDeep · env.settings.maxDepth))
  else
    noteFramed (.bean d.path) do
      noteFields notes env below d v (d.conventionsOf v) d.fields
      making notes (writeName "")

/-- Writes the properties of an instance of a bean, which has to be known (`writeBean`). -/
def noteBean (v : Value) : Noting ω ν WriteError Unit := do
  match ← silently (writer? (ω := ω) env v.typeId) with
  | none => making notes (throw (.unknownBean (v.typePath env.decls)))
  | some d => noteFieldsOf notes env below d v

/-- Runs the script of a codec (`run`). -/
def noteRun : Script → Noting ω ν CodecError Unit
  | .done => return
  | .fail reason => throw reason
  | .write p next => do
    noteRun (next (← noteOutcome (silently (onEncoder (Encoder.write p)))))
  | .tree t next => do noteRun (next (← noteOutcome (silently (onEncoder t.writeTo))))
  | .value v next => do noteRun (next (← noteOutcome (noteValue notes env below v)))
  | .bean v next => do noteRun (next (← noteOutcome (noteBean notes env below v)))
  | .property name v kind next => do
    noteRun (next (← noteOutcome (noteNextProperty notes env below name v kind)))
  | .name name next => do noteRun (next (← noteOutcome (making notes (writeName name))))
  | .framed frame body next => do
    noteRun (next (← noteOutcome (noteFramed frame (noteRun body))))
  | .reencode v next => do
    match env.codecs.get? v.typeId with
    | some e => noteRun (next (← noteOutcome (below.encode e v)))
    | none => noteRun (next (.ok ()))
  | .context next => do noteRun (next (← silently (trace (ω := ω))) env.settings)
  | .knows type next => do noteRun (next (← silently (writer? (ω := ω) env type)).isSome)

/-- Writes a value by a codec (`encode`). -/
def noteEncode (e : Entry) (v : Value) : Noting ω ν CodecError Unit :=
  refusing notes v <|
    if v.typeId = e.type then noteRun notes env below (e.codec v)
    else throw (.wrongType e.type.name (v.typePath env.decls))

omit [Output ω] in
/-- What follows the codec of `v`. A failure of a nested write was made where it came from; any
other failure of the codec is made into one of a write here. -/
def noteAnswer (v : Value) : Except CodecError Unit → Noting ω ν WriteError Unit
  | .ok () => return
  | .error (.nested source) => throw source
  | .error reason => making notes (failAt (WriteError.codec · (v.typePath env.decls) reason))

omit [Output ω] in
theorem noteAnswer_own {reason : CodecError} (own : ∀ source, reason ≠ .nested source)
    (v : Value) : noteAnswer notes env v (.error reason) =
      making notes (failAt (WriteError.codec · (v.typePath env.decls) reason)) := by
  cases reason with
  | nested source => exact absurd rfl (own source)
  | _ => rfl

/-- Writes the payload of an action (`writePayload`). -/
def notePayload : Action → Noting ω ν WriteError Unit
  | .null => return
  | .codec e v => do noteAnswer notes env v (← noteOutcome (noteEncode notes env below e v))
  | .bean d v => do
    making notes (emit (.string d.path))
    noteFieldsOf notes env below d v
  | .sequence items => do
    making notes (emit (.len items.length))
    noteElements notes env below 0 items

/-- Writes the tag and payload of an action (`writeWith`). -/
def noteWith (action : Action) : Noting ω ν WriteError Unit := do
  making notes (emit (.tag (BitVec.ofNat 32 action.tag)))
  notePayload notes env below action

end Programs

end Pass

/-- How values are written with `depth` levels to go, with notes. -/
def NotingNested.ofDepth [Output ω] (notes : Notes ω ν) (env : Env) :
    (depth : Nat) → NotingNested ω ν
  | 0 =>
    { writeWith := fun _ => silently (abort .overflow)
      encode := fun _ _ => silently (abort .overflow) }
  | depth + 1 =>
    { writeWith := fun action => noteWith notes env (ofDepth notes env depth) action
      encode := fun e v => noteEncode notes env (ofDepth notes env depth) e v }

/-- Writes one level below, with no notes on them. -/
def NotingNested.silent (below : Nested ω) : NotingNested ω ν where
  writeWith action := silently (below.writeWith action)
  encode e v := silently (below.encode e v)

/-- Does what was asked for, with notes. -/
def Call.noted [Output ω] (notes : Notes ω ν) (env : Env) (below : NotingNested ω ν) :
    (c : Call) → Noting ω ν WriteError c.Answer
  | .value v => noteValue notes env below v
  | .property name v kind => noteNextProperty notes env below name v kind
  | .bean v => noteBean notes env below v

namespace Pass

/-! ### Running a pass with notes -/

theorem noting_run_bind {x : Noting ω ν ε β} {f : β → Noting ω ν ε α} {t : Noted ω ν} :
    (x >>= f).run t =
      match x.run t with
      | .ok (.ok b) t' => (f b).run t'
      | .ok (.error e) t' => .ok (.error e) t'
      | .error reason t' => .error reason t' := by
  rw [ExceptT.run_bind]
  change EStateM.bind _ _ t = _
  rw [EStateM.bind]
  rcases x.run t with ⟨e | b, t'⟩ | ⟨reason, t'⟩ <;> rfl

theorem noteOutcome_run_bind {x : Noting ω ν δ β} {f : Except δ β → Noting ω ν ε α}
    {t : Noted ω ν} :
    (noteOutcome x >>= f).run t =
      match x.run t with
      | .ok answer t' => (f answer).run t'
      | .error reason t' => .error reason t' := by
  rw [noting_run_bind]
  simp only [noteOutcome, ExceptT.run_lift, Functor.map, EStateM.map]
  rcases x.run t with ⟨answer, t'⟩ | ⟨reason, t'⟩ <;> rfl

theorem noteFramed_run {f : Frame} {x : Noting ω ν ε α} {t : Noted ω ν} :
    (noteFramed f x).run t =
      match x.run { t with machine := t.machine.enter f } with
      | .ok answer t' => .ok answer { t' with machine := t'.machine.leave }
      | .error reason t' => .error reason t' := rfl

theorem refusing_run {notes : Notes ω ν} {v : Value} {x : Noting ω ν CodecError α}
    {t : Noted ω ν} :
    (refusing notes v x).run t =
      match x.run t with
      | .ok answer t' =>
        .ok answer { t' with notes := t'.notes ++ notes.refusedBy v answer t'.machine }
      | .error reason t' => .error reason t' := rfl

theorem run_silently {x : AttemptTo ω ε α} {t : Noted ω ν} :
    (silently x).run t = Outcome.noted t.notes (x.run t.machine) := by
  change Outcome.noted (t.notes ++ []) (x.run t.machine) = _
  rw [List.append_nil]

/-! ### What is noted -/

/-- The computation `x` is `y`, with these notes. -/
def Observes (x : Noting ω ν ε α) (y : AttemptTo ω ε α) (told : Machine ω → List ν) : Prop :=
  ∀ t, x.run t = Outcome.noted (t.notes ++ told t.machine) (y.run t.machine)

theorem observes_noting (tell : Machine ω → Outcome ε α ω → List ν) (x : AttemptTo ω ε α) :
    Observes (noting tell x) x fun m => tell m (x.run m) := fun _ => rfl

theorem observes_silently (x : AttemptTo ω ε α) : Observes (silently (ν := ν) x) x fun _ => [] :=
  observes_noting _ x

theorem observes_pure (a : α) :
    Observes (pure a : Noting ω ν ε α) (pure a) fun _ => [] := fun t => by
  rw [List.append_nil]
  rfl

theorem observes_throw (e : ε) :
    Observes (throw e : Noting ω ν ε α) (throw e) fun _ => [] := fun t => by
  rw [List.append_nil]
  rfl

namespace Observes

variable {x : Noting ω ν ε β} {y : AttemptTo ω ε β} {told : Machine ω → List ν}

theorem congr {told' : Machine ω → List ν} (h : Observes x y told)
    (same : ∀ m, told m = told' m) : Observes x y told' := by
  obtain rfl : told = told' := funext same
  exact h

theorem bind {f : β → Noting ω ν ε α} {g : β → AttemptTo ω ε α}
    {more : β → Machine ω → List ν} (first : Observes x y told)
    (next : ∀ b, Observes (f b) (g b) (more b)) :
    Observes (x >>= f) (y >>= g) fun m => told m ++
      match y.run m with
      | .ok (.ok b) m₁ => more b m₁
      | _ => [] := by
  intro t
  dsimp only
  rw [run_bind, noting_run_bind, first t]
  rcases y.run t.machine with ⟨e | b, m₁⟩ | ⟨reason, m₁⟩
  · dsimp only
    rw [List.append_nil]
    rfl
  · dsimp only
    rw [← List.append_assoc]
    exact next b { machine := m₁, notes := t.notes ++ told t.machine }
  · dsimp only
    rw [List.append_nil]
    rfl

theorem answered {f : Except ε β → Noting ω ν δ α} {g : Except ε β → AttemptTo ω δ α}
    {more : Except ε β → Machine ω → List ν} (first : Observes x y told)
    (next : ∀ answer, Observes (f answer) (g answer) (more answer)) :
    Observes (noteOutcome x >>= f) (outcome y >>= g) fun m => told m ++
      match y.run m with
      | .ok answer m₁ => more answer m₁
      | _ => [] := by
  intro t
  dsimp only
  rw [run_outcome_bind, noteOutcome_run_bind, first t]
  rcases y.run t.machine with ⟨answer, m₁⟩ | ⟨reason, m₁⟩
  · dsimp only
    rw [← List.append_assoc]
    exact next answer { machine := m₁, notes := t.notes ++ told t.machine }
  · dsimp only
    rw [List.append_nil]
    rfl

theorem discard (h : Observes x y told) : Observes (discard x) (discard y) told := by
  rw [discard_eq_bind, discard_eq_bind]
  refine (h.bind fun _ => observes_pure _).congr fun m => ?_
  rcases y.run m with ⟨e | a, m₁⟩ | ⟨reason, m₁⟩ <;> rw [List.append_nil]

theorem framed (h : Observes x y told) (f : Frame) :
    Observes (noteFramed f x) (framed f y) fun m => told (m.enter f) := by
  intro t
  rw [run_framed, noteFramed_run, h { t with machine := t.machine.enter f }]
  rcases y.run (t.machine.enter f) with ⟨answer, m₁⟩ | ⟨reason, m₁⟩ <;> rfl

theorem refusing {x : Noting ω ν CodecError β} {y : AttemptTo ω CodecError β} (notes : Notes ω ν)
    (h : Observes x y told) (v : Value) :
    Observes (refusing notes v x) y fun m => told m ++
      match y.run m with
      | .ok answer m₁ => notes.refusedBy v answer m₁
      | _ => [] := by
  intro t
  dsimp only
  rw [refusing_run, h t]
  rcases y.run t.machine with ⟨answer, m₁⟩ | ⟨reason, m₁⟩
  · dsimp only
    rw [← List.append_assoc]
    rfl
  · dsimp only
    rw [List.append_nil]
    rfl

end Observes

/-! ### Notes change nothing -/

/-- The computation `x` is `y`, with some notes. -/
def Erases (x : Noting ω ν ε α) (y : AttemptTo ω ε α) : Prop := ∃ told, Observes x y told

theorem erases_noting (tell : Machine ω → Outcome ε α ω → List ν) (x : AttemptTo ω ε α) :
    Erases (noting tell x) x := ⟨_, observes_noting tell x⟩

theorem erases_silently (x : AttemptTo ω ε α) : Erases (silently (ν := ν) x) x :=
  ⟨_, observes_silently x⟩

theorem erases_pure (a : α) : Erases (pure a : Noting ω ν ε α) (pure a) :=
  ⟨_, observes_pure a⟩

theorem erases_throw (e : ε) : Erases (throw e : Noting ω ν ε α) (throw e) :=
  ⟨_, observes_throw e⟩

namespace Erases

variable {x : Noting ω ν ε β} {y : AttemptTo ω ε β}

theorem bind {f : β → Noting ω ν ε α} {g : β → AttemptTo ω ε α} (first : Erases x y)
    (next : ∀ b, Erases (f b) (g b)) : Erases (x >>= f) (y >>= g) := by
  obtain ⟨told, first⟩ := first
  choose more next using next
  exact ⟨_, first.bind next⟩

theorem answered {f : Except ε β → Noting ω ν δ α} {g : Except ε β → AttemptTo ω δ α}
    (first : Erases x y) (next : ∀ answer, Erases (f answer) (g answer)) :
    Erases (noteOutcome x >>= f) (outcome y >>= g) := by
  obtain ⟨told, first⟩ := first
  choose more next using next
  exact ⟨_, first.answered next⟩

theorem discard (h : Erases x y) : Erases (discard x) (discard y) := by
  obtain ⟨told, h⟩ := h
  exact ⟨_, h.discard⟩

theorem framed (h : Erases x y) (f : Frame) : Erases (noteFramed f x) (framed f y) := by
  obtain ⟨told, h⟩ := h
  exact ⟨_, h.framed f⟩

end Erases

end Pass

/-- The writes with notes are the writes without them. -/
structure NotingNested.Erases (noted : NotingNested ω ν) (below : Nested ω) : Prop where
  writeWith : ∀ a, Pass.Erases (noted.writeWith a) (below.writeWith a)
  encode : ∀ e v, Pass.Erases (noted.encode e v) (below.encode e v)

namespace Pass

section Operations

variable [Output ω] {notes : Notes ω ν} {env : Env} {noted : NotingNested ω ν} {below : Nested ω}
  (h : noted.Erases below)

include h

omit [Output ω] in
theorem erases_noteValue (v : Option Value) :
    Erases (noteValue notes env noted v) (writeValue env below v) := by
  refine (erases_noting _ _).bind fun w => (erases_noting _ _).bind fun a => ?_
  rcases a with _ | a
  · exact erases_noting _ _
  · exact h.writeWith a

omit [Output ω] in
theorem erases_noteElements (index : Nat) (vs : List Value) :
    Erases (noteElements notes env noted index vs) (writeElements env below index vs) := by
  induction vs generalizing index with
  | nil => exact erases_pure ()
  | cons v vs ih => exact ((erases_noteValue h (some v)).framed _).bind fun _ => ih (index + 1)

theorem erases_noteResolvedProperty (kind : PropertyKind) (name : String) (v : Option Value) :
    Erases (noteResolvedProperty notes env noted kind name v)
      (writeResolvedProperty env below kind name v) := by
  refine Erases.framed ((erases_noting _ _).bind fun a => ?_) _
  rcases a with _ | a
  · exact erases_noting _ _
  · refine (erases_noting _ _).bind fun _ => (h.writeWith a).bind fun _ => ?_
    exact (erases_noting _ _).bind fun _ => (erases_noting _ _).bind fun _ => erases_pure true

theorem erases_noteNextProperty (name : String) (v : Option Value) (kind : PropertyKind) :
    Erases (noteNextProperty notes env noted name v kind)
      (writeNextProperty env below name v kind) := by
  unfold noteNextProperty writeNextProperty
  split
  · exact erases_noting _ _
  · exact (erases_noting _ _).bind fun w => erases_noteResolvedProperty h kind name w

theorem erases_noteField (d : Descriptor) (v : Value) (conventions : Option Nat) (f : Field) :
    Erases (noteField notes env noted d v conventions f)
      (writeField env below d v conventions f) := by
  have property (w : Option Value) :
      Erases (Functor.discard (noteNextProperty notes env noted f.name w .field))
        (Functor.discard (writeNextProperty env below f.name w .field)) :=
    (erases_noteNextProperty h f.name w .field).discard
  unfold noteField writeField
  rcases d.read f v with _ | raw
  · exact erases_noting _ _
  rcases conventions with _ | mapping
  · exact property (some raw)
  · refine (erases_noting _ _).bind fun own => ?_
    rcases own with _ | content
    · exact (erases_noting _ _).bind fun fallback => property fallback
    · exact property (some content)

theorem erases_noteFields (d : Descriptor) (v : Value) (conventions : Option Nat)
    (fs : List Field) :
    Erases (noteFields notes env noted d v conventions fs)
      (writeFields env below d v conventions fs) := by
  induction fs with
  | nil => exact erases_pure ()
  | cons f fs ih => exact (erases_noteField h d v conventions f).bind fun _ => ih

theorem erases_noteFieldsOf (d : Descriptor) (v : Value) :
    Erases (noteFieldsOf notes env noted d v) (writeFieldsOf env below d v) := by
  refine (erases_noting _ _).bind fun t => ?_
  split
  · exact erases_noting _ _
  · exact ((erases_noteFields h d v _ d.fields).bind fun _ => erases_noting _ _).framed _

theorem erases_noteBean (v : Value) :
    Erases (noteBean notes env noted v) (writeBean env below v) := by
  refine (erases_noting _ _).bind fun d => ?_
  rcases d with _ | d
  · exact erases_noting _ _
  · exact erases_noteFieldsOf h d v

theorem erases_noteRun (s : Script) :
    Erases (noteRun notes env noted s) (run env below s) := by
  induction s with
  | done => exact erases_pure ()
  | fail reason => exact erases_throw reason
  | write p next ih => exact (erases_noting _ _).answered ih
  | tree t next ih => exact (erases_noting _ _).answered ih
  | value v next ih => exact (erases_noteValue h v).answered ih
  | bean v next ih => exact (erases_noteBean h v).answered ih
  | property name v kind next ih => exact (erases_noteNextProperty h name v kind).answered ih
  | name name next ih => exact (erases_noting _ _).answered ih
  | framed frame body next inside ih => exact (inside.framed frame).answered ih
  | reencode v next ih =>
    rw [noteRun, run]
    rcases env.codecs.get? v.typeId with _ | e
    · exact ih (.ok ())
    · exact (h.encode e v).answered ih
  | context next ih => exact (erases_noting _ _).bind fun t => ih t env.settings
  | knows type next ih => exact (erases_noting _ _).bind fun d => ih d.isSome

theorem erases_noteEncode (e : Entry) (v : Value) :
    Erases (noteEncode notes env noted e v) (encode env below e v) := by
  obtain ⟨told, inside⟩ : Erases (ω := ω) (ν := ν)
      (if v.typeId = e.type then noteRun notes env noted (e.codec v)
        else throw (.wrongType e.type.name (v.typePath env.decls))) (encode env below e v) := by
    unfold encode
    split
    · exact erases_noteRun h _
    · exact erases_throw _
  exact ⟨_, inside.refusing notes v⟩

omit [Output ω] h in
/-- What is made of the failure of a codec is the same. -/
theorem erases_noteAnswer (v : Value) (answer : Except CodecError Unit) :
    Erases (noteAnswer (ν := ν) notes env v answer) (match answer with
      | .ok () => pure ()
      | .error reason => failAt (ω := ω) (WriteError.ofCodec · (v.typePath env.decls) reason)) := by
  rcases answer with reason | ⟨⟩
  · by_cases nested : ∃ source, reason = .nested source
    · obtain ⟨source, rfl⟩ := nested
      exact erases_throw source
    · have own : ∀ source, reason ≠ .nested source := fun source same => nested ⟨source, same⟩
      rw [noteAnswer_own notes env own]
      simp only [WriteError.ofCodec_own own]
      exact erases_noting _ _
  · exact erases_pure ()

theorem erases_notePayload (a : Action) :
    Erases (notePayload notes env noted a) (writePayload env below a) := by
  cases a with
  | null => exact erases_pure ()
  | codec e v => exact (erases_noteEncode h e v).answered (erases_noteAnswer v)
  | bean d v => exact (erases_noting _ _).bind fun _ => erases_noteFieldsOf h d v
  | sequence items => exact (erases_noting _ _).bind fun _ => erases_noteElements h 0 items

theorem erases_noteWith (a : Action) :
    Erases (noteWith notes env noted a) (writeWith env below a) :=
  (erases_noting _ _).bind fun _ => erases_notePayload h a

end Operations

end Pass

namespace NotingNested

variable [Output ω] (notes : Notes ω ν) (env : Env)

/-- The writes of every level are the same with notes. -/
theorem erases_ofDepth (depth : Nat) : (ofDepth notes env depth).Erases (.ofDepth env depth) := by
  induction depth with
  | zero =>
    exact ⟨fun _ => erases_silently (abort .overflow), fun _ _ => erases_silently (abort .overflow)⟩
  | succ depth ih => exact ⟨erases_noteWith ih, erases_noteEncode ih⟩

end NotingNested

/-- A call with notes does what the call does. -/
theorem Call.erases_noted [Output ω] (notes : Notes ω ν) (env : Env) (c : Call) (depth : Nat) :
    Erases (c.noted notes env (.ofDepth notes env depth)) (c.run env (.ofDepth env depth)) := by
  have below := NotingNested.erases_ofDepth notes env depth
  cases c with
  | value v => exact erases_noteValue below v
  | property name v kind => exact erases_noteNextProperty below name v kind
  | bean v => exact erases_noteBean below v

end BeanStream
