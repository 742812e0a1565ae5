import BeanStream.Proofs.Pass.Moments
import BeanStream.Proofs.Pass.Noted
import BeanStream.Proofs.Pass.Repetition
import BeanStream.Proofs.Store.Chains

/-!
# What is asked for the fields of a bean

To write a field, the containers of its own value are asked for their content, and where this turns
out to be absent, the conventions of the bean may be asked for the value of the field. None of this
shows in what becomes of a pass. So it is **noted** (`questions`), for the fields of one bean and
not for what is written below them.

Main fact: the fields are reached in their order, and for each of them the notes are those of this
field alone (`Pass.fieldNotes`). The containers of its own value are opened once, and the
conventions are asked **once if it is absent, and never else** (`Pass.told`). Over pure containers,
neither the containers nor the absence hang on what was asked for the fields before: both are the
same as at the beginning, with conventions and without them.
-/

namespace BeanStream

open Wire Encoder Pass

/-! ### Absent values -/

/-- A value that was unwrapped is left as it is by another unwrapping. -/
theorem Value.unwrap_of_unwrapped {decls : Declarations} {v w : Option Value} {s s' : Store}
    (run : (Value.unwrap decls v).run s = .ok (.ok w) s') :
    (Value.unwrap decls w).run s' = .ok (.ok w) s' := by
  rcases w with _ | w
  · rfl
  · exact Value.unwrap_of_plain (Value.plain_of_unwrapWithin run) s'

namespace Store

/-- Whether the value unwraps to absence. -/
def absent (decls : Declarations) (s : Store) (raw : Value) : Bool :=
  match (Value.unwrap decls (some raw)).run s with
  | .ok (.ok none) _ => true
  | _ => false

theorem absent_eq_true_iff {decls : Declarations} {s : Store} {raw : Value} :
    s.absent decls raw = true ↔
      ∃ s', (Value.unwrap decls (some raw)).run s = .ok (.ok none) s' := by
  unfold absent
  rcases (Value.unwrap decls (some raw)).run s with ⟨source | _ | w, s'⟩ | ⟨reason, s'⟩ <;> simp

/-- Whether a pure value is absent is settled. -/
theorem Pure.absent_eq {decls : Declarations} {codecs : CodecRegistry} {s s' : Store} {raw : Value}
    (pure : s.Pure decls codecs raw) (kept : s.Kept decls s') :
    s'.absent decls raw = s.absent decls raw := by
  have own : ∀ u, some raw = some u → s.Pure decls codecs u := by
    rintro u ⟨⟩
    exact pure
  obtain ⟨outcome, -, unwraps⟩ := exists_unwrap own
  obtain ⟨s₁, run⟩ := unwraps s (.refl s)
  obtain ⟨s₁', run'⟩ := unwraps s' kept
  rw [absent, absent, run, run']
  rcases outcome with source | _ | w <;> rfl

end Store

/-! ### Notes -/

/-- The container that is asked, if any is. -/
def Value.Note.container? : Value.Note → Option Deferred
  | .asked d => some d
  | .handed _ => none

/-- The containers that are asked when a value is unwrapped, in their order. -/
def Value.containers (decls : Declarations) (v : Option Value) (s : Store) : List Deferred :=
  (aftermath (Value.unwrapWatched decls pure maxUnwrapDepth [] v { store := s })).log.filterMap
    Note.container?

/-- The containers that are asked are those of the course. -/
theorem Value.containers_of_course {decls : Declarations} {v : Option Value} {s : Store}
    {ds : List Deferred} {last : Option Deferred} {r : Unwrapped}
    (course : Course decls v s ds last r) :
    Value.containers decls v s = ds ++ last.toList := by
  have asked (row : List Deferred) : (row.map Note.asked).filterMap Note.container? = row := by
    rw [List.filterMap_map]
    exact List.filterMap_some
  rw [containers, unwrapWatched_of_course course, List.nil_append]
  rcases r with ⟨e | w, s'⟩ | ⟨reason, s'⟩
  · exact asked _
  · change ((_ ++ [Note.handed w]).filterMap _) = _
    rw [List.filterMap_append, asked]
    exact List.append_nil _
  · exact asked _

/-- What has been unwrapped has no containers. -/
theorem Value.containers_of_settled {decls : Declarations} {w : Option Value}
    (settled : Value.Settled w) (s : Store) : Value.containers decls w s = [] :=
  containers_of_course ⟨.here w s, List.nodup_nil, Nat.zero_le _, .settled settled⟩

namespace Store

variable {decls : Declarations} {codecs : CodecRegistry} {s s₁ s₁' s₂ : Store}

/-- A step of a pure value is always the same, and leads to a pure value. -/
theorem Pure.exists_unwrapStep {v : Value} (h : s.Pure decls codecs v) {d : Deferred}
    (shape : v.deferred? = some d) :
    ∃ step : Step, (∀ u, step.content = some u → s.Pure decls codecs u) ∧
      ∀ s', s.Kept decls s' → ∃ s'', s.Kept decls s'' ∧
        (v.unwrapStep decls).run s' = .ok (.ok (some step)) s'' := by
  obtain ⟨step, exposes, resolves⟩ := h.steady.exists_resolve shape
  refine ⟨step, fun u found => h.part (.exposed (exposes u found)), fun s' kept => ?_⟩
  obtain ⟨s'', run⟩ := resolves s' kept
  have left := kept.resolve d
  rw [run] at left
  refine ⟨s'', left, ?_⟩
  rw [Value.run_unwrapStep shape, run]

/-- Whatever was asked before, steps of pure values lead through the same containers. -/
theorem exists_leads {v w : Option Value} {ds : List Deferred}
    (leads : Value.Leads decls v s₁ ds w s₂) (own : ∀ u, v = some u → s.Pure decls codecs u)
    (kept : s.Kept decls s₁) (kept' : s.Kept decls s₁') :
    (∀ u, w = some u → s.Pure decls codecs u) ∧ s.Kept decls s₂ ∧
      ∃ s₂', Value.Leads decls v s₁' ds w s₂' := by
  induction leads generalizing s₁' with
  | here v s₁ => exact ⟨own, kept, s₁', .here v s₁'⟩
  | step shape run _ ih =>
    obtain ⟨step, next, resolves⟩ := (own _ rfl).exists_unwrapStep shape
    obtain ⟨s₃, left, run₃⟩ := resolves _ kept
    obtain ⟨s₃', left', run₃'⟩ := resolves _ kept'
    rw [run] at run₃
    cases run₃
    obtain ⟨own', kept₂, s₂', further⟩ := ih next left left'
    exact ⟨own', kept₂, s₂', .step shape run₃' further⟩

/-- Whatever was asked before, unwrapping a pure value opens the same containers. -/
theorem Pure.containers_eq {v : Value} (pure : s.Pure decls codecs v) (kept : s.Kept decls s₁) :
    Value.containers decls (some v) s₁ = Value.containers decls (some v) s := by
  have own : ∀ u, some v = some u → s.Pure decls codecs u := by
    rintro u ⟨⟩
    exact pure
  obtain ⟨ds, last, r, course⟩ :=
    Value.exists_course maxUnwrapDepth (.here (some v) s) List.nodup_nil (Nat.zero_add _)
  obtain ⟨leads, distinct, within, ends⟩ := id course
  -- the course has the same containers over both stores, and ends with none that is asked in vain
  obtain ⟨own', left, s₂', leads'⟩ := exists_leads leads own (.refl s) kept
  have course' : ∃ r', Value.Course decls (some v) s₁ ds last r' := by
    cases ends with
    | settled settled => exact ⟨_, leads', distinct, within, .settled settled⟩
    | tooDeep shape full => exact ⟨_, leads', distinct, within, .tooDeep shape full⟩
    | reentrant shape spare identity met =>
      exact ⟨_, leads', distinct, within, .reentrant shape spare identity met⟩
    -- the steps of pure values do not fail
    | failed shape _ _ run | aborted shape _ _ run =>
      obtain ⟨step, -, resolves⟩ := (own' _ rfl).exists_unwrapStep shape
      obtain ⟨_, -, run'⟩ := resolves _ left
      rw [run] at run'
      cases run'
  obtain ⟨r', course'⟩ := course'
  rw [Value.containers_of_course course, Value.containers_of_course course']

end Store

/-- What is noted while fields are written. -/
inductive FieldNote where
  /-- A container is asked for its content. -/
  | opened (d : Deferred)
  /-- The conventions are asked for the value of a field. -/
  | asked (name : String)

namespace Pass

variable {ω α β : Type}

section Programs

variable (env : Env)

/-- The containers of a value, as notes. -/
def opening (v : Option Value) (m : Machine ω) : List FieldNote :=
  (Value.containers env.decls v m.store).map .opened

/-- It is noted which containers are opened, and for what the conventions are asked. -/
def questions : Notes ω FieldNote where
  opened := opening env
  asked name _ := [.asked name]

/-- What is asked for a field: the containers of its own value, and, if that turns out to be absent,
the conventions, and the containers of the convention value. -/
def fieldNotes (d : Descriptor) (v : Value) (conventions : Option Nat) (f : Field) (m : Machine ω) :
    List FieldNote :=
  match d.read f v with
  | none => []
  | some raw => opening env (some raw) m ++
    match conventions, (Value.unwrap env.decls (some raw)).run m.store with
    | some mapping, .ok (.ok none) s =>
      .asked f.name :: opening env (s.conventionValue mapping f.name) { m with store := s }
    | _, _ => []

variable [Output ω] (below : Nested ω)

/-- The fields of a row that are reached, each with the machine that it is reached with. -/
def visits (d : Descriptor) (v : Value) (conventions : Option Nat) :
    List Field → Machine ω → List (Field × Machine ω)
  | [], _ => []
  | f :: fs, m => (f, m) ::
    match (writeField env below d v conventions f).run m with
    | .ok (.ok ()) m₁ => visits d v conventions fs m₁
    | _ => []

end Programs

section Observed

variable {env : Env}

/-- That a failure is made is not asked for. -/
theorem questions_madeBy (r : Outcome WriteError α ω) : (questions env).madeBy r = [] := by
  unfold Notes.madeBy
  split <;> rfl

theorem observes_making (x : AttemptTo ω WriteError α) :
    Observes (making (questions env) x) x fun _ => [] :=
  (observes_noting _ x).congr fun _ => questions_madeBy _

theorem observes_noteUnwrap (frame : List Frame) (v : Option Value) :
    Observes (noteUnwrap (questions env) env frame v) (unwrap (ω := ω) env frame v)
      (opening env v) := by
  refine (observes_noting _ _).congr fun m => ?_
  rw [questions_madeBy, List.append_nil]
  rfl

theorem observes_noteConvention (mapping : Nat) (name : String) :
    Observes (ω := ω) (noteConvention (questions env) mapping name)
      (return (← getThe (Machine ω)).store.conventionValue mapping name)
      fun _ => [.asked name] := observes_noting _ _

/-- Where none of two computations notes anything, both of them together do not. -/
theorem Observes.in_silence {x : Noting ω FieldNote WriteError β} {y : AttemptTo ω WriteError β}
    {f : β → Noting ω FieldNote WriteError α} {g : β → AttemptTo ω WriteError α}
    (first : Observes x y fun _ => []) (next : ∀ b, Observes (f b) (g b) fun _ => []) :
    Observes (x >>= f) (y >>= g) fun _ => [] := by
  refine (first.bind next).congr fun m => ?_
  rcases y.run m with ⟨e | b, m₁⟩ | ⟨reason, m₁⟩ <;> rfl

variable [Output ω] {below : Nested ω} {d : Descriptor} {v : Value}

/-- Once a value has been unwrapped, nothing more is asked for it. -/
theorem observes_resolvedProperty (kind : PropertyKind) (name : String) (w : Option Value) :
    Observes (noteResolvedProperty (questions env) env (.silent below) kind name w)
      (writeResolvedProperty env below kind name w) fun _ => [] := by
  refine Observes.framed ((observes_silently _).in_silence fun a => ?_) _
  rcases a with _ | a
  · exact observes_making _
  · refine (observes_making _).in_silence fun _ => (observes_silently _).in_silence fun _ => ?_
    exact (observes_silently _).in_silence fun _ => (observes_silently _).in_silence fun _ =>
      observes_pure true

theorem observes_property {name : String} (named : name ≠ "") (w : Option Value) :
    Observes (noteNextProperty (questions env) env (.silent below) name w .field)
      (writeNextProperty env below name w .field) (opening env w) := by
  rw [noteNextProperty, writeNextProperty, if_neg named, if_neg named]
  refine ((observes_noteUnwrap _ w).bind fun u => observes_resolvedProperty _ name u).congr
    fun m => ?_
  rcases (unwrap env [.property .field name] w).run m with ⟨e | u, m₁⟩ | ⟨reason, m₁⟩ <;>
    rw [List.append_nil]

/-- What is asked for a field. -/
theorem observes_field (conventions : Option Nat) {f : Field} (named : f.name ≠ "") :
    Observes (noteField (questions env) env (.silent below) d v conventions f)
      (writeField env below d v conventions f) (fieldNotes env d v conventions f) := by
  unfold noteField writeField
  rcases read : d.read f v with _ | raw
  · exact (observes_making _).congr fun m => by simp only [fieldNotes, read]
  rcases conventions with _ | mapping
  · exact (observes_property named (some raw)).discard.congr fun m => by
      simp only [fieldNotes, read, List.append_nil]
  -- what follows the own value: another look at it, or the conventions
  let more (w : Option Value) (m : Machine ω) : List FieldNote :=
    w.elim (.asked f.name :: opening env (m.store.conventionValue mapping f.name) m)
      fun content => opening env (some content) m
  refine ((observes_noteUnwrap _ _).bind (?_ : ∀ w, Observes _ _ (more w))).congr fun m => ?_
  · rintro (_ | content)
    · exact ((observes_noteConvention mapping f.name).bind fun fallback =>
        (observes_property named fallback).discard).congr fun m => rfl
    · exact (observes_property named (some content)).discard
  · simp only [fieldNotes, read]
    rw [run_unwrap]
    rcases unwrapped : (Value.unwrap env.decls (some raw)).run m.store with
      ⟨source | _ | content, s⟩ | ⟨reason, s⟩
    · rfl
    · rfl
    · have settled : Value.Settled (some content) := fun _ same =>
        Option.some.inj same ▸ Value.plain_of_unwrapWithin unwrapped
      simp [more, opening, Value.containers_of_settled settled]
    · rfl

theorem observes_fields (conventions : Option Nat) {fs : List Field}
    (named : ∀ f ∈ fs, f.name ≠ "") :
    Observes (noteFields (questions env) env (.silent below) d v conventions fs)
      (writeFields env below d v conventions fs) fun m =>
        (visits env below d v conventions fs m).flatMap fun (f, m₁) =>
          fieldNotes env d v conventions f m₁ := by
  -- the notes of the other fields come from the machine that the first one leaves
  induction fs with
  | nil => exact observes_pure ()
  | cons f fs ih =>
    obtain ⟨first, others⟩ := List.forall_mem_cons.1 named
    refine ((observes_field conventions first).bind fun _ => ih others).congr fun m => ?_
    rw [visits, List.flatMap_cons]
    rcases (writeField env below d v conventions f).run m with ⟨e | ⟨⟩, m₁⟩ | ⟨reason, m₁⟩ <;> rfl

/-- The fields that are reached come first, and they are all if nothing fails. -/
theorem reaches_in_order (conventions : Option Nat) (fs : List Field) (m : Machine ω) :
    (visits env below d v conventions fs m).map Prod.fst <+: fs ∧
      ∀ m', (writeFields env below d v conventions fs).run m = .ok (.ok ()) m' →
        (visits env below d v conventions fs m).map Prod.fst = fs := by
  induction fs generalizing m with
  | nil => exact ⟨List.prefix_rfl, fun _ _ => rfl⟩
  | cons f fs ih =>
    rw [visits, writeFields, run_bind, List.map_cons]
    rcases (writeField env below d v conventions f).run m with ⟨e | ⟨⟩, m₁⟩ | ⟨reason, m₁⟩
    · exact ⟨⟨fs, rfl⟩, fun _ done => nomatch done⟩
    · obtain ⟨front, all⟩ := ih m₁
      exact ⟨(List.prefix_cons_inj f).2 front, fun m' done => congrArg (f :: ·) (all m' done)⟩
    · exact ⟨⟨fs, rfl⟩, fun _ done => nomatch done⟩

/-- Whichever field is reached, the same remains of what there was before the first one. -/
theorem remains_visits (proceeds : below.Proceeds env) {origin : Memory}
    (conventions : Option Nat) (fs : List Field) {m : Machine ω}
    (remains : origin.Remains env.decls m.memory) :
    ∀ visit ∈ visits env below d v conventions fs m,
      origin.Remains env.decls visit.2.memory := by
  induction fs generalizing m with
  | nil => exact fun _ mem => absurd mem List.not_mem_nil
  | cons f fs ih =>
    rw [visits, List.forall_mem_cons]
    refine ⟨remains, ?_⟩
    have advances := (Proceeds.writeField proceeds d v conventions f).advances m
    rcases run : (writeField env below d v conventions f).run m with
      ⟨e | ⟨⟩, m₁⟩ | ⟨reason, m₁⟩
    · exact fun _ mem => absurd mem List.not_mem_nil
    · rw [run] at advances
      exact ih (remains.all_asked advances.memory)
    · exact fun _ mem => absurd mem List.not_mem_nil

variable (env below d v)

/-- The fields of an instance of a bean that are reached, each with the machine that it is reached
with: none, if the limit on nesting is exceeded. -/
def reached (m : Machine ω) : List (Field × Machine ω) :=
  if env.settings.maxDepth ≤ m.trace.beanDepth then []
  else visits env below d v (d.conventionsOf v) d.fields (m.enter (.bean d.path))

/-- What is asked for an instance of a bean, from `m` on. -/
structure Told (m : Machine ω) : Prop where
  /-- The notes are those of the fields that are reached, one after the other. -/
  notes : (noteFieldsOf (questions env) env (.silent below) d v).run { machine := m } =
    Outcome.noted ((reached env below d v m).flatMap fun (f, m₁) =>
      fieldNotes env d v (d.conventionsOf v) f m₁) ((writeFieldsOf env below d v).run m)
  /-- Fields are reached in their order, each of them once. -/
  order : (reached env below d v m).map Prod.fst <+: d.fields
  /-- If nothing fails, none of them is missing. -/
  all : ∀ m', (writeFieldsOf env below d v).run m = .ok (.ok ()) m' →
    (reached env below d v m).map Prod.fst = d.fields
  /-- Which of them are absent was settled at the beginning. -/
  absent : ∀ visit ∈ reached env below d v m, ∀ raw, d.read visit.1 v = some raw →
    visit.2.store.absent env.decls raw = m.store.absent env.decls raw
  /-- So were the containers of their own values. -/
  opened : ∀ visit ∈ reached env below d v m, ∀ raw, d.read visit.1 v = some raw →
    Value.containers env.decls (some raw) visit.2.store =
      Value.containers env.decls (some raw) m.store

variable {env below d v}

/-- Writing fields only asks for values, so the same remains wherever one is reached. -/
theorem remains_reached (proceeds : below.Proceeds env) (m : Machine ω) :
    ∀ visit ∈ reached env below d v m, m.memory.Remains env.decls visit.2.memory := by
  unfold reached
  split
  · exact fun _ mem => absurd mem List.not_mem_nil
  · exact remains_visits proceeds _ _ (.refl _)

theorem observes_fieldsOf (named : ∀ f ∈ d.fields, f.name ≠ "") :
    Observes (noteFieldsOf (questions env) env (.silent below) d v) (writeFieldsOf env below d v)
      fun m => (reached env below d v m).flatMap fun (f, m₁) =>
        fieldNotes env d v (d.conventionsOf v) f m₁ := by
  let inside (m : Machine ω) : List FieldNote :=
    (visits env below d v (d.conventionsOf v) d.fields m).flatMap fun (f, m₁) =>
      fieldNotes env d v (d.conventionsOf v) f m₁
  -- nothing is asked for the closing name
  have body : Observes (noteFields (questions env) env (.silent below) d v (d.conventionsOf v)
      d.fields >>= fun _ => making (questions env) (writeName ""))
      (writingProperties (writeFields env below d v (d.conventionsOf v) d.fields)) inside := by
    refine ((observes_fields _ named).bind fun _ => observes_making _).congr fun m => ?_
    refine (congrArg _ ?_).trans (List.append_nil _)
    rcases (writeFields env below d v (d.conventionsOf v) d.fields).run m with
      ⟨e | ⟨⟩, m₁⟩ | ⟨reason, m₁⟩ <;> rfl
  let more (t : Trace) (m : Machine ω) : List FieldNote :=
    if env.settings.maxDepth ≤ t.beanDepth then [] else inside (m.enter (.bean d.path))
  refine ((observes_silently _).bind (?_ : ∀ t, Observes _ _ (more t))).congr fun m => ?_
  · intro t
    dsimp only [more]
    by_cases deep : env.settings.maxDepth ≤ t.beanDepth
    · rw [if_pos deep, if_pos deep]
      exact (observes_making _).congr fun _ => (if_pos deep).symm
    · rw [if_neg deep, if_neg deep]
      exact (body.framed _).congr fun _ => (if_neg deep).symm
  · rw [run_trace, reached]
    dsimp only [more, inside, List.nil_append]
    split <;> rfl

theorem told (proceeds : below.Proceeds env) (named : ∀ f ∈ d.fields, f.name ≠ "") {m : Machine ω}
    (pure : m.store.Pure env.decls env.codecs v) : Told env below d v m where
  notes := observes_fieldsOf named { machine := m }
  order := by
    unfold reached
    split
    · exact List.nil_prefix
    · exact (reaches_in_order ..).1
  all m' done := by
    rw [writeFieldsOf_eq_underBean, run_underBean] at done
    unfold reached
    split at done
    · cases done
    · rename_i within
      rw [if_neg within]
      rw [writingProperties, run_bind] at done
      rcases run : (writeFields env below d v (d.conventionsOf v) d.fields).run
        (m.enter (.bean d.path)) with ⟨e | ⟨⟩, m₁⟩ | ⟨reason, m₁⟩
      · rw [run] at done
        cases done
      · exact (reaches_in_order ..).2 m₁ run
      · rw [run] at done
        cases done
  absent visit mem raw read :=
    (pure.part (Descriptor.part_of_read read)).absent_eq
      (remains_reached proceeds m visit mem).store
  opened visit mem raw read :=
    (pure.part (Descriptor.part_of_read read)).containers_eq
      (remains_reached proceeds m visit mem).store

end Observed

end Pass

end BeanStream
