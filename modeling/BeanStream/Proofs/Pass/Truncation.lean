import BeanStream.Proofs.Pass.Repetition

/-!
# Passes over a limited output

A pass over an output that has **room for some bytes only** (`Machine.narrowed`) goes together with
the same pass over an output without limits until the room is used up. There it fails, and this
failure is passed on by everything that the pass is in: no property, bean, sequence or codec goes
on after it, and none turns it into something else.

Main fact: what is in the limited output is **a first part** of what the pass leaves in the
unlimited one, as long as there is room. If all of that fits, the two passes come to the same; if
it does not, the limited pass fails with the failure of its output (`Call.run_narrowed`).

The pass over the unlimited output may also be the one that must not leave anything out. It then
stops where the other one logs its first omission (`Call.run_widened`).
-/

namespace BeanStream

open Wire Encoder Pass Relation

/-- The settings with another policy for values that cannot be written. -/
def Settings.withMissing (settings : Settings) (policy : MissingPolicy) : Settings :=
  { settings with missing := policy }

namespace Machine

/-- The machine with an output that has room for `n` more bytes. -/
def narrowed (n : Nat) (chunk : Option Nat) (whenFull : Option IoError) (m : Machine) : Machine :=
  { m with encoder.sink :=
    { m.encoder.sink with limit := some (m.written.length + n), chunk, whenFull } }

/-- Two machines show the same: the bytes that were written, the trace and the log. -/
structure Shows (m m' : Machine) : Prop where
  written : m.written = m'.written
  trace : m.trace = m'.trace
  logs : m.logs = m'.logs

/-- A machine with an output that may be limited, and the same one with an output that is not. -/
structure Widened (limit : Option Nat) (full : IoError) (m m' : Machine) : Prop
    extends m.Shows m' where
  memory : m.memory = m'.memory
  limited : m.encoder.sink.limit = limit
  chunk : m.encoder.sink.chunk ≠ some 0
  fullError : m.encoder.sink.fullError = full
  held : ∀ n, limit = some n → m.written.length ≤ n
  unlimited : m'.encoder.sink.Unlimited

/-- The output was full before all of the bytes were written, and is a first part of them. -/
structure Truncated (limit : Option Nat) (m m' : Machine) : Prop where
  written : ∃ n, limit = some n ∧ n < m'.written.length ∧ m.written = m'.written.take n
  logs : m.logs <+: m'.logs

/-- A pass that leaves something out, and one that has stopped there. -/
structure Omits (limit : Option Nat) (t : Trace) (typePath : String) (m m' : Machine) : Prop where
  written : m'.written <+: m.written
  logs : m'.logs ++ [.omitted t typePath] <+: m.logs
  held : ∀ n, limit = some n → m'.written.length ≤ n

end Machine

open Machine

/-- More bytes and lines may follow what was cut. -/
theorem Machine.Truncated.advances {limit : Option Nat} {m m' m'' : Machine} {env : Env}
    (h : m.Truncated limit m') (later : m'.Advances env m'') : m.Truncated limit m'' := by
  obtain ⟨n, limited, less, cut⟩ := h.written
  obtain ⟨more, added⟩ := later.written
  refine ⟨⟨n, limited, ?_, ?_⟩, h.logs.trans later.prefix_logs⟩
  · rw [← added, List.length_append]
    omega
  · rw [cut, ← added, List.take_append_of_le_length (Nat.le_of_lt less)]

/-- More bytes and lines may follow what was left out. -/
theorem Machine.Omits.advances {limit : Option Nat} {t : Trace} {typePath : String}
    {m m' m'' : Machine} {env : Env} (h : m.Omits limit t typePath m')
    (later : m.Advances env m'') : m''.Omits limit t typePath m' :=
  ⟨h.written.trans later.written, h.logs.trans later.prefix_logs, h.held⟩

/-- What the two machines make of a row of pieces. -/
theorem Machine.Widened.writing {limit : Option Nat} {full : IoError} {m m' : Machine}
    (h : m.Widened limit full m') (pieces : List (List UInt8)) :
    match writePieces pieces m.encoder, writePieces pieces m'.encoder with
    | .ok _ e, .ok _ e' => Widened limit full { m with encoder := e } { m' with encoder := e' }
    | .error source e, .ok _ e' =>
      source = full ∧ Truncated limit { m with encoder := e } { m' with encoder := e' }
    | .error _ _, .error _ _ | .ok _ _, .error _ _ => False := by
  have endless (n : Nat) : m'.encoder.sink.Fits n := by
    intro room found
    rw [Sink.room, h.unlimited.limit] at found
    cases found
  obtain ⟨position', all⟩ := writePieces_of_fits h.unlimited.chunk (endless pieces.flatten.length)
  have same : m.encoder.sink.written = m'.encoder.sink.written := h.written
  rw [all]
  rcases m.encoder.sink.fits_or_less pieces.flatten.length with fits | ⟨room, found, less⟩
  · obtain ⟨position, written⟩ := writePieces_of_fits h.chunk fits
    rw [written]
    refine { h with
      written := congrArg (· ++ pieces.flatten) same
      unlimited := ⟨h.unlimited.limit, h.unlimited.chunk⟩
      held := fun n limited => ?_ }
    have bound : m.encoder.sink.written.length ≤ n := h.held n limited
    have left : pieces.flatten.length ≤ n - m.encoder.sink.written.length := by
      refine fits _ ?_
      rw [Sink.room, h.limited, limited]
      rfl
    change (m.encoder.sink.written ++ pieces.flatten).length ≤ n
    rw [List.length_append]
    omega
  · obtain ⟨position, written⟩ := writePieces_of_full h.chunk found less
    rw [written]
    refine ⟨h.fullError, ⟨?_, h.logs ▸ List.prefix_rfl⟩⟩
    rcases limited : limit with _ | n
    · rw [Sink.room, h.limited, limited] at found
      cases found
    · have bound : m.encoder.sink.written.length ≤ n := h.held n limited
      obtain rfl : n - m.encoder.sink.written.length = room := by
        rw [Sink.room, h.limited, limited] at found
        exact Option.some.inj found
      refine ⟨n, rfl, ?_, ?_⟩
      · change n < (m'.encoder.sink.written ++ pieces.flatten).length
        rw [List.length_append, ← same]
        omega
      · change m.encoder.sink.written ++ _ = (m'.encoder.sink.written ++ pieces.flatten).take n
        rw [← same, List.take_append, List.take_of_length_le bound]

/-- A pass over an output that may be limited, and a pass over one that is not. The policy of the
second pass is the same, or the strict one. -/
def widening (env : Env) (policy : MissingPolicy)
    (sound : policy = env.settings.missing ∨ policy = .fail) (limit : Option Nat)
    (full : IoError) : Coupling env (env.settings.withMissing policy) where
  sim := Widened limit full
  fails e e' := e = e'
  first e m m' := e.Blames full ∧ m.Truncated limit m'
  second m e m' := env.settings.missing = .warn ∧ policy = .fail ∧
    ∃ t typePath, e = .missingCodec t typePath ∧ m.Omits limit t typePath m'
  fits _ := True
  entering h f _ := { h with trace := congrArg (f :: ·) h.trace }
  leaving h _ := { h with trace := congrArg List.tail h.trace }
  fails_at h r := congrArg r.toError h.trace
  tooDeep h deep := by
    rw [h.trace] at deep ⊢
    exact .inl ⟨deep, rfl⟩
  within h deep := h.trace ▸ deep
  logging h typePath := { h with logs := by rw [h.logs, h.trace] }
  omitting {m m'} h typePath := by
    have logged : Widened limit full { m with logs := m.logs ++ [.omitted m.trace typePath] }
        { m' with logs := m'.logs ++ [.omitted m'.trace typePath] } :=
      { h with logs := by rw [h.logs, h.trace] }
    have omits : Omits limit m'.trace typePath
        { m with logs := m.logs ++ [.omitted m.trace typePath] } m' :=
      ⟨h.written ▸ List.prefix_rfl, logged.logs ▸ List.prefix_rfl, h.written ▸ h.held⟩
    dsimp only [Settings.withMissing]
    rcases lenient : env.settings.missing <;> rcases strict : policy
    · exact logged
    · exact ⟨rfl, rfl, m'.trace, typePath, rfl, omits⟩
    · rw [lenient, strict] at sound
      rcases sound with wrong | wrong <;> cases wrong
    · trivial
  writing {m m'} h pieces := by
    have written := h.writing pieces
    generalize writePieces pieces m.encoder = r at written
    generalize writePieces pieces m'.encoder = r' at written
    rcases r with ⟨⟨⟩, e⟩ | ⟨source, e⟩ <;> rcases r' with ⟨⟨⟩, e'⟩ | ⟨source', e'⟩
    · exact written
    · exact written
    · obtain ⟨rfl, cut⟩ := written
      exact fun reason blames => ⟨blames, cut⟩
    · exact written.elim
  unwrapping {m m'} h v _ := by
    have same : m.store = m'.store := congrArg Memory.store h.memory
    have beans : m.beans = m'.beans := congrArg Memory.beans h.memory
    rw [same]
    refine .of_self (fun s => ?_) _
    exact { h with memory := congrArg (Memory.mk s) beans }
  asking {m m'} h type := by
    have same : m.beans = m'.beans := congrArg Memory.beans h.memory
    have store : m.store = m'.store := congrArg Memory.store h.memory
    rw [same]
    refine .of_self (fun b => ?_) _
    exact { h with memory := congrArg (Memory.mk · b) store }
  convention h mapping name :=
    congrArg (fun memory : Memory => memory.store.conventionValue mapping name) h.memory
  fits_unwrap _ _ _ _ _ _ := trivial
  fits_item _ _ _ _ _ := trivial
  fits_field _ _ _ _ := trivial
  fits_convention _ _ _ _ _ _ _ _ _ := trivial
  first_advances h later := ⟨h.1, h.2.advances later⟩
  first_leave h := ⟨h.1, h.2.written, h.2.logs⟩
  second_advances h later := by
    obtain ⟨lenient, strict, t, typePath, fails, omits⟩ := h
    exact ⟨lenient, strict, t, typePath, fails, omits.advances later⟩
  second_leave h := by
    obtain ⟨lenient, strict, t, typePath, fails, omits⟩ := h
    exact ⟨lenient, strict, t, typePath, fails, omits.written, omits.logs, omits.held⟩

namespace Call

variable {env : Env} {c : Call}

/-- What may become of the two passes: they come to the same, or the first one has failed with its
output, or the second one has stopped where the first one left something out. -/
theorem run_widened (plain : env.codecs.Plain) {policy : MissingPolicy}
    (sound : policy = env.settings.missing ∨ policy = .fail) {limit : Option Nat} {full : IoError}
    {m m' : Machine} (h : m.Widened limit full m') (c : Call) (depth : Nat) :
    let other := env.under (env.settings.withMissing policy)
    let r := (c.run env (.ofDepth env depth)).run m
    let r' := (c.run other (.ofDepth other depth)).run m'
    Alike (Widened limit full) r r' ∨
      (∃ e m₁, r = .ok (.error e) m₁ ∧ e.Blames full ∧ m₁.Truncated limit (aftermath r')) ∨
      env.settings.missing = .warn ∧ policy = .fail ∧
        ∃ t typePath m₁', r' = .ok (.error (.missingCodec t typePath)) m₁' ∧
          (aftermath r).Omits limit t typePath m₁' := by
  intro other r r'
  have below := (widening env policy sound limit full).below_ofDepth plain depth
  have related : (widening env policy sound limit full).Rel r r' :=
    Coupling.run_call below (c := c) (fun _ _ => trivial) h
  clear_value r r'
  cases related with
  | together h => exact .inl (h.alike fun _ _ => id)
  | first h => exact .inr (.inl ⟨_, _, rfl, h.1, h.2⟩)
  | second h =>
    obtain ⟨lenient, strict, t, typePath, rfl, omits⟩ := h
    exact .inr (.inr ⟨lenient, strict, t, typePath, _, rfl, omits⟩)

end Call

namespace Machine

variable {m m' m'' : Machine}

theorem Same.shows (h : m.Same m') : m.Shows m' :=
  ⟨congrArg Encoder.written h.encoder, h.trace, h.logs⟩

theorem Shows.trans (h : m.Shows m') (h' : m'.Shows m'') : m.Shows m'' :=
  ⟨h.written.trans h'.written, h.trace.trans h'.trace, h.logs.trans h'.logs⟩

/-- The same machine, with room for some bytes and without a limit. -/
theorem widened_narrowed (unlimited : m.encoder.sink.Unlimited) (n : Nat) {chunk : Option Nat}
    (positive : chunk ≠ some 0) (whenFull : Option IoError) :
    (m.narrowed n chunk whenFull).Widened (some (m.written.length + n))
      (whenFull.getD .writeZero) m where
  written := rfl
  trace := rfl
  logs := rfl
  memory := rfl
  limited := rfl
  chunk := positive
  fullError := rfl
  held n limited := by
    cases limited
    exact Nat.le_add_right _ _
  unlimited := unlimited

end Machine

/-- A call over pure values and an output that has room for `n` more bytes, compared to the same
call over an output without limits, whatever happened to the memory before. In which portions a
sink takes the bytes of a write makes no difference. -/
theorem Call.run_narrowed {env : Env} (plain : env.codecs.Plain) {origin memory memory' : Memory}
    (since : origin.Since env.decls memory) (since' : origin.Since env.decls memory')
    {c : Call} (pure : ∀ v, c.subject = some v → origin.store.Pure env.decls env.codecs v)
    (depth : Nat) {m : Machine} (unlimited : m.encoder.sink.Unlimited) (n : Nat)
    {chunk : Option Nat} (positive : chunk ≠ some 0) (whenFull : Option IoError) :
    let x := c.run env (.ofDepth env depth)
    let limited := x.run ((m.narrowed n chunk whenFull).holding memory)
    let whole := x.run (m.holding memory')
    let room := m.written.length + n
    (aftermath limited).written = (aftermath whole).written.take room ∧
      ((aftermath whole).written.length ≤ room → Alike Shows limited whole) ∧
      (room < (aftermath whole).written.length →
        ∃ e m', limited = .ok (.error e) m' ∧ e.Blames (whenFull.getD .writeZero)) ∧
      ∀ (s : Sink) bs r, s.chunk ≠ some 0 → s.Takes bs r → s.writeAll bs = r := by
  intro x limited whole room
  have again : Alike Same (x.run (m.holding memory)) whole :=
    run_since since since' pure depth m
  have start : ((m.narrowed n chunk whenFull).holding memory).Widened (some room)
      (whenFull.getD .writeZero) (m.holding memory) :=
    @widened_narrowed (m.holding memory) unlimited n chunk positive whenFull
  have written : (aftermath (x.run (m.holding memory))).written = (aftermath whole).written :=
    again.left.shows.written
  have split : Alike (Widened (some room) (whenFull.getD .writeZero)) limited
        (x.run (m.holding memory)) ∨
      ∃ e m₁, limited = .ok (.error e) m₁ ∧ e.Blames (whenFull.getD .writeZero) ∧
        m₁.Truncated (some room) (aftermath (x.run (m.holding memory))) := by
    rcases run_widened plain (.inl rfl) start c depth with alike | truncated | omits
    · exact .inl alike
    · exact .inr truncated
    · obtain ⟨lenient, strict, -⟩ := omits
      rw [lenient] at strict
      cases strict
  have portions : ∀ (s : Sink) bs r, s.chunk ≠ some 0 → s.Takes bs r → s.writeAll bs = r :=
    fun s bs r chunk takes => s.writeAll_of_takes chunk takes
  rcases split with alike | ⟨e, m₁, failed, blames, truncated⟩
  -- there was room for everything
  · have same : (aftermath limited).written = (aftermath whole).written :=
      alike.left.written.trans written
    have fits : (aftermath whole).written.length ≤ room := same ▸ alike.left.held room rfl
    refine ⟨?_, fun _ => ?_, fun more => absurd fits (Nat.not_le.2 more), portions⟩
    · rw [same, List.take_of_length_le fits]
    · exact (alike.imp fun _ _ left => left.toShows).trans
        (again.imp fun _ _ left => left.shows) fun _ _ _ => Shows.trans
  · obtain ⟨k, limit, less, front⟩ := truncated.written
    obtain rfl : k = room := (Option.some.inj limit).symm
    rw [written] at less front
    refine ⟨?_, fun fits => absurd less (Nat.not_lt.2 fits), fun _ => ⟨e, m₁, failed, blames⟩,
      portions⟩
    rw [failed]
    exact front

/-- A link to a value that is written as a tree, over an output which takes single bytes and has no
room for all of the tree: the first bytes are in the output, and the call fails. -/
theorem Call.run_narrowed_link :
    let bridged := Link.env.codecs.register (.named "demo::Tree") Value.treeScript
    let env := { Link.env with codecs := bridged.2 }
    let x := (Call.bean (Link.link (some (.tree "demo::Tree" (.str "abc"))) [97])).run env
      (.ofDepth env 3)
    let whole := x.run Link.machine
    let limited := x.run (Link.machine.narrowed 8 (some 1) none)
    (aftermath limited).written = (aftermath whole).written.take 8 ∧
      ∃ e m', limited = .ok (.error e) m' ∧ e.Blames .writeZero := by
  intro bridged env x whole limited
  have plain : env.codecs.Plain :=
    CodecRegistry.Plain.register CodecRegistry.plain_builtin _ Value.plain_treeScript
  have flat : env.codecs.Flat := CodecRegistry.Plain.flat plain
  have pure : ∀ v,
      (Call.bean (Link.link (some (.tree "demo::Tree" (.str "abc"))) [97])).subject = some v →
        Link.machine.memory.store.Pure env.decls env.codecs v := by
    rintro v ⟨⟩
    refine Link.pure_link flat rfl ?_ [97]
    rintro u ⟨⟩
    refine (Store.pure_iff flat).2 ⟨trivial, fun w part => ?_⟩
    cases part with
    | exposed exposes => cases exposes
  have positive : some 1 ≠ some 0 := by decide
  obtain ⟨front, -, fails, -⟩ := Call.run_narrowed plain .refl .refl pure 3
    (m := Link.machine) ⟨rfl, nofun⟩ 8 positive none
  have more : 8 < (aftermath whole).written.length := by decide +kernel
  exact ⟨front, fails more⟩

end BeanStream
