import BeanStream.Proofs.Pass.Coupling

/-!
# What surrounds a pass

A pass may be begun **within** other writes, whose frames are on the trace already. These frames
stay below all that the pass puts on the trace, so no operation ever comes across them but in two
ways: they stand at the end of every trace that is reported, and the beans among them count for the
limit on nesting.

Main fact: a call within surroundings does what the same call does by itself under a limit that is
**less by the beans around it** (`Call.run_within`). Bytes and memory are the same; the failure and
the lines of the log are the same, but for the surroundings behind each trace (`textWithin`) and
the limit that a failure reports.
-/

namespace BeanStream

open Wire Encoder Pass

variable {ω : Type} [Output ω]

namespace Frame

/-- The text of a frame begins with a letter. -/
private theorem text_ne_root (f : Frame) (rest : String) : f.text ++ rest ≠ "<root>" := by
  intro h
  have chars := congrArg String.toList h
  rcases f with path | ⟨_ | _ | _, name⟩ | index <;>
    simp [text, PropertyKind.text] at chars

end Frame

namespace Trace

/-- The text of a trace that is put on `outer`, from the text that it has by itself. -/
def textWithin (outer : Trace) (inner : String) : String :=
  if outer = [] then inner
  else if inner = "<root>" then outer.text
  else inner ++ " of " ++ outer.text

/-- Only the empty trace shows as the root. -/
theorem text_eq_root_iff {t : Trace} : t.text = "<root>" ↔ t = [] := by
  constructor
  · intro h
    rcases t with _ | ⟨f, _ | ⟨g, t⟩⟩
    · rfl
    · have shown : f.text ++ "" = "<root>" := by simpa [text] using h
      exact absurd shown (f.text_ne_root "")
    · rw [← List.singleton_append, text_append (List.cons_ne_nil _ _) (List.cons_ne_nil _ _),
        String.append_assoc] at h
      exact absurd h (f.text_ne_root _)
  · rintro rfl
    rfl

/-- The text of a trace on top of any other one. -/
theorem text_within (inner outer : Trace) :
    text (inner ++ outer) = outer.textWithin inner.text := by
  unfold textWithin
  by_cases ho : outer = []
  · rw [if_pos ho, ho, List.append_nil]
  by_cases hi : inner = []
  · rw [if_neg ho, if_pos (text_eq_root_iff.2 hi), hi, List.nil_append]
  · rw [if_neg ho, if_neg fun root => hi (text_eq_root_iff.1 root), text_append hi ho]

end Trace

/-- A failure within surroundings, where this many beans may be nested. -/
def WriteError.within (outer : Trace) (maxDepth : Nat) : WriteError → WriteError
  | .codec t typePath source => .codec (t ++ outer) typePath source
  | .unwrap t source => .unwrap (t ++ outer) source
  | .missingCodec t typePath => .missingCodec (t ++ outer) typePath
  | .unknownBean typePath => .unknownBean typePath
  | .fieldAccess bean field typePath => .fieldAccess bean field typePath
  | .emptyPropertyName t => .emptyPropertyName (t ++ outer)
  | .tooDeep t _ => .tooDeep (t ++ outer) maxDepth
  | .io t source => .io (t ++ outer) source

/-- A line of the log within surroundings. -/
def LogLine.within (outer : Trace) : LogLine → LogLine
  | .omitted t typePath => .omitted (t ++ outer) typePath
  | .written t typePath => .written (t ++ outer) typePath

/-- A machine within surroundings, behind the lines that were logged before. -/
def Machine.within (outer : Trace) (earlier : List LogLine) (m : Machine ω) : Machine ω :=
  { m with trace := m.trace ++ outer, logs := earlier ++ m.logs.map (LogLine.within outer) }

/-- What becomes of a computation within surroundings. -/
def Outcome.within {α : Type} (outer : Trace) (maxDepth : Nat) (earlier : List LogLine) :
    Outcome WriteError α ω → Outcome WriteError α ω
  | .ok (.ok a) m => .ok (.ok a) (m.within outer earlier)
  | .ok (.error e) m => .ok (.error (e.within outer maxDepth)) (m.within outer earlier)
  | .error reason m => .error reason (m.within outer earlier)

/-- The settings for a pass by itself, in place of one within surroundings. -/
def Settings.less (settings : Settings) (outer : Trace) : Settings :=
  { settings with maxDepth := settings.maxDepth - outer.beanDepth }

/-- A pass within surroundings, and the same by itself. -/
def surrounded (env : Env) (outer : Trace) (earlier : List LogLine) :
    Coupling env (env.settings.less outer) ω where
  sim m m' := m = m'.within outer earlier
  fails e e' := e = e'.within outer env.settings.maxDepth
  first _ _ _ := False
  second _ _ _ := False
  fits _ := True
  entering {m m'} h f _ := by
    subst h
    rfl
  leaving {m m'} h entered := by
    subst h
    obtain ⟨f, t, trace⟩ := List.exists_cons_of_ne_nil entered
    simp [Machine.within, Machine.leave, trace]
  fails_at {m m'} h r := by
    subst h
    cases r with
    | unwrap frames source => simp [Reason.toError, WriteError.within, Machine.within]
    | _ => rfl
  tooDeep {m m'} h deep := by
    subst h
    have beans : (m'.within outer earlier).trace.beanDepth =
        m'.trace.beanDepth + outer.beanDepth := Trace.beanDepth_append _ _
    rw [beans] at deep
    exact .inl ⟨Nat.sub_le_iff_le_add.2 deep, rfl⟩
  within {m m'} h deep := by
    subst h
    have beans : (m'.within outer earlier).trace.beanDepth =
        m'.trace.beanDepth + outer.beanDepth := Trace.beanDepth_append _ _
    rw [beans]
    exact Nat.sub_le_iff_le_add.1 deep
  logging {m m'} h typePath := by
    subst h
    simp [Machine.within, LogLine.within]
  omitting {m m'} h typePath := by
    subst h
    rcases policy : env.settings.missing <;>
      simp [Settings.less, policy, Machine.within, LogLine.within]
  writing {m m'} h pieces := by
    subst h
    change match writePieces pieces m'.encoder, writePieces pieces m'.encoder with
      | .ok _ _, .ok _ _ => _ | .error _ _, .error _ _ => _ | .error _ _, .ok _ _ => _
      | .ok _ _, .error _ _ => _
    rcases writePieces pieces m'.encoder with ⟨⟨⟩, e⟩ | ⟨source, e⟩
    · rfl
    · exact ⟨rfl, rfl⟩
  unwrapping {m m'} h v _ := by
    subst h
    refine .of_self ?_ _
    intro _
    rfl
  asking {m m'} h type := by
    subst h
    refine .of_self ?_ _
    intro _
    rfl
  convention {m m'} h mapping name := by
    subst h
    rfl
  fits_unwrap _ _ _ _ _ _ := trivial
  fits_item _ _ _ _ _ := trivial
  fits_field _ _ _ _ := trivial
  fits_convention _ _ _ _ _ _ _ _ _ := trivial
  first_advances h _ := h
  first_leave h := h
  second_advances h _ := h
  second_leave h := h

/-- A call within surroundings, compared to the same call by itself. -/
theorem Call.run_within {env : Env} (plain : env.codecs.Plain) (c : Call) (depth : Nat)
    (m : Machine ω) (outer : Trace) :
    let alone := env.under (env.settings.less outer)
    (c.run env (.ofDepth env depth)).run { m with trace := outer } =
        Outcome.within outer env.settings.maxDepth m.logs
          ((c.run alone (.ofDepth alone depth)).run { m with trace := [], logs := [] }) ∧
      ∀ inner : Trace, Trace.text (inner ++ outer) = outer.textWithin inner.text := by
  intro alone
  refine ⟨?_, fun inner => Trace.text_within inner outer⟩
  have start : (surrounded (ω := ω) env outer m.logs).sim { m with trace := outer }
      { m with trace := [], logs := [] } := by
    change ({ m with trace := outer } : Machine ω) = _
    simp [Machine.within]
  have below := (surrounded (ω := ω) env outer m.logs).below_ofDepth plain depth
  have related := Coupling.run_call below (c := c) (fun _ _ => trivial) start
  generalize (c.run env (.ofDepth env depth)).run { m with trace := outer } = r at related
  change Coupling.Rel _ r ((c.run alone (.ofDepth alone depth)).run
    { m with trace := [], logs := [] }) at related
  generalize (c.run alone (.ofDepth alone depth)).run { m with trace := [], logs := [] } = r'
    at related
  cases related with
  | together h =>
    cases h with
    | @done a m₁ m₁' sim =>
      obtain rfl : m₁ = m₁'.within outer m.logs := sim
      rfl
    | @failed e e' m₁ m₁' fails sim =>
      obtain rfl : m₁ = m₁'.within outer m.logs := sim
      obtain rfl : e = e'.within outer env.settings.maxDepth := fails
      rfl
    | @aborted reason m₁ m₁' sim =>
      obtain rfl : m₁ = m₁'.within outer m.logs := sim
      rfl
  | first h => exact h.elim
  | second h => exact h.elim

/-- Whether a computation fails because beans are nested too deeply, at this place. -/
private def failsTooDeepAt {α : Type} (t : Trace) (limit : Nat) : Outcome WriteError α ω → Bool
  | .ok (.error (.tooDeep trace maxDepth)) _ => trace = t && maxDepth = limit
  | _ => false

omit [Output ω] in
private theorem exists_of_failsTooDeepAt {α : Type} {t : Trace} {limit : Nat}
    {r : Outcome WriteError α ω} (h : failsTooDeepAt t limit r = true) :
    ∃ m, r = .ok (.error (.tooDeep t limit)) m := by
  rcases r with ⟨e | a, m⟩ | ⟨reason, m⟩
  · cases e with
    | tooDeep trace maxDepth =>
      obtain ⟨rfl, rfl⟩ : trace = t ∧ maxDepth = limit := by simpa [failsTooDeepAt] using h
      exact ⟨m, rfl⟩
    | _ => cases h
  · cases h
  · cases h

/-- A chain of two links within another bean, where two beans are allowed: the second link is one
too many, as it is for the chain by itself where one is allowed. -/
theorem Call.run_within_link :
    let env := { Link.env with settings := { maxDepth := 2 } }
    let c := Call.bean (Link.link (some (Link.link none [98])) [97])
    let outer : Trace := [.property .input "root", .bean "demo::Root"]
    let t : Trace := [.property .field "next", .bean "demo::Link"] ++ outer
    (∃ m', (c.run env (.ofDepth env 3)).run { Link.machine with trace := outer } =
        .ok (.error (.tooDeep t 2)) m') ∧
      t.text =
        "field `next` of bean `demo::Link` of input property `root` of bean `demo::Root`" := by
  intro env c outer t
  obtain ⟨same, shown⟩ := @Call.run_within _ _ env CodecRegistry.plain_builtin c 3 Link.machine
    outer
  let alone := env.under (env.settings.less outer)
  have fails : failsTooDeepAt [.property .field "next", .bean "demo::Link"] 1
      ((c.run alone (.ofDepth alone 3)).run { Link.machine with trace := [], logs := [] }) =
        true := by
    decide +kernel
  obtain ⟨m', run⟩ := exists_of_failsTooDeepAt fails
  refine ⟨⟨m'.within outer Link.machine.logs, ?_⟩, ?_⟩
  · rw [same, run]
    rfl
  · rw [shown]
    decide +kernel

end BeanStream
