import BeanStream.Proofs.Bean.Writers
import BeanStream.Proofs.Pass.Coupling
import BeanStream.Proofs.Store.Kept

/-!
# What ran before a pass

Passes share a memory: lazy values settle, counters move on, bean types are described, and writers
are kept. A memory is **since** another one (`Memory.Since`) if it may have become of it in any
row of events: passes over whatever values, under whatever settings and codecs, that came to an
end, failed or were aborted, and questions that were asked in between.

Main fact: for a call whose value is pure, **nothing of this matters** (`Call.run_since`). From any
two memories that are since the same one, it comes to the same, with the same bytes and the same
lines of the log. What carries this through a pass is that each memo either is empty or has what
would be found again (`Memory.Remains`).
-/

namespace BeanStream

open Wire Encoder Pass Relation

namespace Memory

variable (decls : Declarations)

/-- What may happen to a memory between passes. -/
inductive Event : Memory → Memory → Prop
  /-- It is asked something. -/
  | asked {memory memory'} : Asks decls memory memory' → Event memory memory'
  /-- A pass is run on it, to some output, whatever becomes of the pass. -/
  | pass {env : Env} {ω : Type} [Output ω] (c : Call) (depth : Nat) (m : Machine ω) :
      env.decls = decls → Event m.memory (aftermath ((c.run env (.ofDepth env depth)).run m)).memory

/-- A row of events leads from one memory to the other. -/
def Since (origin memory : Memory) : Prop := ReflTransGen (Event decls) origin memory

/-- What remains of a memory: what pure lazy values hold, and which writers are found. -/
structure Remains (origin memory : Memory) : Prop where
  store : origin.store.Kept decls memory.store
  beans : Beans.SameWriters decls origin.beans memory.beans

variable {decls} {origin memory memory' : Memory}

namespace Remains

theorem refl (memory : Memory) : Remains decls memory memory := ⟨.refl _, .refl _⟩

/-- No question changes that. -/
theorem asked (h : Remains decls origin memory) (asks : Asks decls memory memory') :
    Remains decls origin memory' := by
  cases asks with
  | unwrap v => exact ⟨h.store.unwrap v, h.beans⟩
  | force thread cell => exact ⟨h.store.force thread cell, h.beans⟩
  | writer type => exact ⟨h.store, h.beans.trans (Beans.sameWriters_writer? type _)⟩
  | descriptor type => exact ⟨h.store, h.beans.trans (Beans.sameWriters_descriptor type _)⟩

theorem all_asked (h : Remains decls origin memory)
    (asks : ReflTransGen (Asks decls) memory memory') : Remains decls origin memory' := by
  induction asks with
  | refl => exact h
  | tail _ last ih => exact ih.asked last

end Remains

/-- Whatever happened, the same remains: a pass only asks questions. -/
theorem Since.remains (h : Since decls origin memory) : Remains decls origin memory := by
  induction h with
  | refl => exact .refl origin
  | tail _ event ih =>
    cases event with
    | asked asks => exact ih.asked asks
    | pass c depth m same =>
      subst same
      exact ih.all_asked ((c.proceeds_run _ depth).advances m).memory

end Memory

variable {ω : Type}

/-- The machine with another memory. -/
def Machine.holding (memory : Memory) (m : Machine ω) : Machine ω :=
  { m with store := memory.store, beans := memory.beans }

/-- Two machines have the same output, trace and log. -/
structure Machine.Same (m m' : Machine ω) : Prop where
  encoder : m.encoder = m'.encoder
  trace : m.trace = m'.trace
  logs : m.logs = m'.logs

/-- Two machines are the same but for their memories, of which the same remains. -/
structure Machine.Beside (decls : Declarations) (origin : Memory) (m m' : Machine ω) : Prop
    extends m.Same m' where
  first : origin.Remains decls m.memory
  second : origin.Remains decls m'.memory

namespace Memory

/-- Writers are found, or are not, in all that remains of a memory alike. -/
private theorem Remains.alike_writer? {decls : Declarations} {origin memory memory' : Memory}
    (h : Remains decls origin memory) (h' : Remains decls origin memory') (type : TypeId) :
    Alike (fun b b' => Remains decls origin { memory with beans := b } ∧
        Remains decls origin { memory' with beans := b' })
      (Beans.writer? decls type memory.beans) (Beans.writer? decls type memory'.beans) :=
  .of_answer_eq ((h.beans type).symm.trans (h'.beans type))
    ⟨h.asked (.writer type memory), h'.asked (.writer type memory')⟩

/-- A pure value is unwrapped in all that remains of a memory alike. -/
private theorem Remains.alike_unwrap {decls : Declarations} {origin memory memory' : Memory}
    (h : Remains decls origin memory) (h' : Remains decls origin memory') {codecs : CodecRegistry}
    {v : Option Value} (pure : ∀ u, v = some u → origin.store.Pure decls codecs u) :
    Alike (fun s s' => Remains decls origin { memory with store := s } ∧
        Remains decls origin { memory' with store := s' })
      ((Value.unwrap decls v).run memory.store) ((Value.unwrap decls v).run memory'.store) := by
  obtain ⟨outcome, -, unwraps⟩ := Store.exists_unwrap pure
  obtain ⟨s, run⟩ := unwraps _ h.store
  obtain ⟨s', run'⟩ := unwraps _ h'.store
  refine .of_answer_eq ?_ ⟨h.asked (.unwrap v memory), h'.asked (.unwrap v memory')⟩
  rw [run, run']
  rfl

/-- A pass on one memory beside the same pass on another one. -/
def coupling [Output ω] (env : Env) (origin : Memory) : Coupling env env.settings ω where
  sim := Machine.Beside env.decls origin
  fails e e' := e = e'
  first _ _ _ := False
  second _ _ _ := False
  fits := origin.store.Pure env.decls env.codecs
  entering h f _ := { h with trace := congrArg (f :: ·) h.trace }
  leaving h _ := { h with trace := congrArg List.tail h.trace }
  fails_at h r := congrArg r.toError h.trace
  tooDeep h deep := by
    rw [h.trace] at deep ⊢
    exact .inl ⟨deep, rfl⟩
  within h deep := h.trace ▸ deep
  logging h typePath := { h with logs := by rw [h.logs, h.trace] }
  omitting {m m'} h typePath := by
    have logged : Machine.Beside env.decls origin
        { m with logs := m.logs ++ [.omitted m.trace typePath] }
        { m' with logs := m'.logs ++ [.omitted m'.trace typePath] } :=
      { h with logs := by rw [h.logs, h.trace] }
    rcases policy : env.settings.missing
    · exact logged
    · trivial
  writing h pieces := by
    rw [h.encoder]
    rcases writePieces pieces _ with ⟨⟨⟩, e⟩ | ⟨source, e⟩
    · exact { h with encoder := rfl }
    · exact ⟨rfl, { h with encoder := rfl }⟩
  unwrapping h v fitting :=
    (h.first.alike_unwrap h.second fitting).imp fun s s' remains =>
      { h with first := remains.1, second := remains.2 }
  asking h type :=
    (h.first.alike_writer? h.second type).imp fun b b' remains =>
      { h with first := remains.1, second := remains.2 }
  convention h mapping name :=
    (h.first.store.conventionValue mapping name).trans
      (h.second.store.conventionValue mapping name).symm
  fits_unwrap {m m'} h v fitting w s unwrapped := by
    have pure : ∀ u, some v = some u → origin.store.Pure env.decls env.codecs u := by
      rintro u ⟨⟩
      exact fitting
    obtain ⟨outcome, pure', unwraps⟩ := Store.exists_unwrap pure
    obtain ⟨s', run⟩ := unwraps _ h.first.store
    rw [show m.memory.store = m.store from rfl, unwrapped] at run
    cases run
    exact pure' w rfl
  fits_item fitting items list u mem := by
    obtain ⟨type, rfl⟩ := Value.eq_sequence_of_items? list
    exact fitting.part (.element mem)
  fits_field fitting f u read := fitting.part (Descriptor.part_of_read read)
  fits_convention {m m'} h d v fitting mapping brings name u mapped := by
    have same := h.first.store.conventionValue mapping name
    exact fitting.part (Descriptor.part_of_conventionsOf brings (same.symm.trans mapped))
  first_advances h _ := h
  first_leave h := h
  second_advances h _ := h
  second_leave h := h

end Memory

namespace Pass

/-- Whatever remains of a memory, the computation comes to the same. -/
def Undisturbed (decls : Declarations) (origin : Memory) {ε α : Type} (x : AttemptTo ω ε α) :
    Prop :=
  ∀ ⦃m m'⦄, Machine.Beside decls origin m m' →
    Alike (Machine.Beside decls origin) (x.run m) (x.run m')

variable {ε δ α β : Type} {decls : Declarations} {env : Env} {origin : Memory}

/-- To be undisturbed is to be coupled with oneself. -/
theorem undisturbed_iff [Output ω] {x : AttemptTo ω WriteError α} :
    Undisturbed env.decls origin x ↔ (origin.coupling env).Coupled x x := by
  constructor
  · intro h m m' sim
    have alike := h sim
    generalize x.run m = r at alike
    generalize x.run m' = r' at alike
    cases alike with
    | ok answer left =>
      rcases answer with e | a
      · exact .together (.failed rfl left)
      · exact .together (.done a left)
    | error reason left => exact .together (.aborted reason left)
  · exact fun h m m' sim => (h sim).alike (fun _ _ => id) (fun _ _ _ => id) fun _ _ _ => id

namespace Undisturbed

theorem pure (a : α) : Undisturbed decls origin (Pure.pure a : AttemptTo ω ε α) :=
  fun _ _ sim => .ok _ sim

theorem throw (e : ε) : Undisturbed decls origin (MonadExcept.throw e : AttemptTo ω ε α) :=
  fun _ _ sim => .ok _ sim

theorem abort (reason : Abort) : Undisturbed decls origin (Pass.abort reason : AttemptTo ω ε α) :=
  fun _ _ sim => .error reason sim

/-- What is done behind an outcome is told the same outcome. -/
theorem resume {x : AttemptTo ω δ β} {f : Except δ β → AttemptTo ω ε α}
    (h : Undisturbed decls origin x) (next : ∀ answer, Undisturbed decls origin (f answer)) :
    Undisturbed decls origin (outcome x >>= f) := by
  intro m m' sim
  have first := h sim
  rw [run_outcome_bind, run_outcome_bind]
  generalize x.run m = r at first
  generalize x.run m' = r' at first
  cases first with
  | ok answer left => exact next answer left
  | error reason left => exact .error reason left

theorem framed {x : AttemptTo ω ε α} (h : Undisturbed decls origin x) (f : Frame) :
    Undisturbed decls origin (Pass.framed f x) := by
  intro m m' sim
  have entered : Machine.Beside decls origin (m.enter f) (m'.enter f) :=
    { sim with trace := congrArg (f :: ·) sim.trace }
  have inside := h entered
  rw [run_framed, run_framed]
  generalize x.run (m.enter f) = r at inside
  generalize x.run (m'.enter f) = r' at inside
  cases inside with
  | ok answer left => exact .ok answer { left with trace := congrArg List.tail left.trace }
  | error reason left => exact .error reason left

theorem onEncoder (x : EStateM ε ω Unit) :
    Undisturbed decls origin (Pass.onEncoder x) := by
  intro m m' sim
  change Alike _ (Pass.onEncoder x m) (Pass.onEncoder x m')
  rw [Pass.onEncoder, Pass.onEncoder, sim.encoder]
  rcases x m'.encoder with ⟨⟨⟩, e⟩ | ⟨reason, e⟩
  · exact .ok _ { sim with encoder := rfl }
  · exact .ok _ { sim with encoder := rfl }

/-- What is done with the trace is done with the same trace. -/
theorem seeTrace {f : Trace → AttemptTo ω ε α} (next : ∀ t, Undisturbed decls origin (f t)) :
    Undisturbed decls origin (liftM Pass.trace >>= f) := by
  intro m m' sim
  rw [run_bind, run_bind, run_trace, run_trace, sim.trace]
  exact next m'.trace sim

/-- What is done with a writer is done with the same writer. -/
theorem seeWriter [Output ω] {type : TypeId} {f : Option Descriptor → AttemptTo ω ε α}
    (next : ∀ d, Undisturbed env.decls origin (f d)) :
    Undisturbed env.decls origin (liftM (writer? env type) >>= f) := by
  intro m m' sim
  have asked := (origin.coupling (ω := ω) env).asking sim type
  rw [run_bind, run_bind, run_writer?, run_writer?]
  generalize Beans.writer? env.decls type m.beans = r at asked
  generalize Beans.writer? env.decls type m'.beans = r' at asked
  cases asked with
  | ok d left => exact next d left
  | error reason left => exact .error reason left

theorem emit [Output ω] (p : Primitive) :
    Undisturbed (ω := ω) env.decls origin (Pass.emit p) :=
  undisturbed_iff.2 (Coupling.coupled_emit p)

/-! ### Codecs -/

variable [Output ω]

/-- Nothing disturbs the writes of a level. -/
structure Below (env : Env) (origin : Memory) (below : Nested ω) : Prop where
  writes : (origin.coupling env).Below below below
  encode : ∀ {e v}, env.codecs.get? v.typeId = some e → origin.store.Pure env.decls env.codecs v →
    Undisturbed env.decls origin (below.encode e v)

variable {below : Nested ω} (h : Below env origin below)

include h

/-- Nothing disturbs a script that hands pure values on. -/
theorem run {s : Script} (handed : ∀ w, s.Hands w → origin.store.Pure env.decls env.codecs w) :
    Undisturbed env.decls origin (Pass.run env below s) := by
  induction s with
  | done => exact .pure ()
  | fail reason => exact .throw reason
  | write p next ih =>
    exact (onEncoder _).resume fun answer => ih answer fun w hands => handed w ⟨answer, hands⟩
  | tree t next ih =>
    exact (onEncoder _).resume fun answer => ih answer fun w hands => handed w ⟨answer, hands⟩
  | value v next ih =>
    have written := undisturbed_iff.2 (Coupling.writeValue h.writes fun w same =>
      handed w (.inl same))
    exact written.resume fun answer => ih answer fun w hands => handed w (.inr ⟨answer, hands⟩)
  | bean v next ih =>
    have written := undisturbed_iff.2 (Coupling.writeBean h.writes (handed v (.inl rfl)))
    exact written.resume fun answer => ih answer fun w hands => handed w (.inr ⟨answer, hands⟩)
  | property name v kind next ih =>
    have written := undisturbed_iff.2 (Coupling.writeNextProperty h.writes name kind fun w same =>
      handed w (.inl same))
    exact written.resume fun answer => ih answer fun w hands => handed w (.inr ⟨answer, hands⟩)
  | name name next ih =>
    exact (emit _).resume fun answer => ih answer fun w hands => handed w ⟨answer, hands⟩
  | framed frame body next inside ih =>
    have written := (inside fun w hands => handed w (.inl hands)).framed frame
    exact written.resume fun answer => ih answer fun w hands => handed w (.inr ⟨answer, hands⟩)
  | reencode v next ih =>
    have behind answer : Undisturbed env.decls origin (Pass.run env below (next answer)) :=
      ih answer fun w hands => handed w (.inr ⟨answer, hands⟩)
    rw [Pass.run]
    split
    · rename_i e found
      exact (h.encode found (handed v (.inl rfl))).resume behind
    · exact behind _
  | context next ih =>
    exact seeTrace fun t => ih t env.settings fun w hands => handed w ⟨t, env.settings, hands⟩
  | knows type next ih =>
    exact seeWriter fun d => ih d.isSome fun w hands => handed w ⟨d.isSome, hands⟩

theorem encode {e : Entry} {v : Value} (found : env.codecs.get? v.typeId = some e)
    (pure : origin.store.Pure env.decls env.codecs v) :
    Undisturbed env.decls origin (Pass.encode env below e v) := by
  unfold Pass.encode
  split
  · exact run h fun w hands => pure.handed ⟨e, found, hands⟩
  · exact .throw _

theorem writePayload {e : Entry} {v : Value} (found : env.codecs.get? v.typeId = some e)
    (pure : origin.store.Pure env.decls env.codecs v) :
    Undisturbed env.decls origin (Pass.writePayload env below (.codec e v)) := by
  refine (encode h found pure).resume fun answer => ?_
  rcases answer with reason | ⟨⟩
  · exact seeTrace fun t => .throw _
  · exact .pure ()

end Undisturbed

/-- Nothing disturbs the writes of any level. -/
theorem undisturbed_ofDepth [Output ω] (env : Env) (origin : Memory) (depth : Nat) :
    Undisturbed.Below (ω := ω) env origin (.ofDepth env depth) := by
  have proceeds := proceeds_ofDepth (ω := ω) env
  induction depth with
  | zero =>
    refine ⟨⟨fun _ => ?_, proceeds 0, proceeds 0⟩, fun _ _ => .abort _⟩
    exact undisturbed_iff.1 (.abort _)
  | succ depth ih =>
    refine ⟨⟨fun fitting => ?_, proceeds _, proceeds _⟩, Undisturbed.encode ih⟩
    refine Coupling.writeWith ih.writes (fun {e v} fitting => ?_) fitting
    exact undisturbed_iff.1 (.writePayload ih fitting.1 fitting.2)

end Pass

namespace Call

variable [Output ω] {env : Env} {origin memory memory' : Memory}

/-- Over pure values, a call comes to the same whatever happened to the memory before: the same
value or failure, the same output and the same log. -/
theorem run_since (since : origin.Since env.decls memory) (since' : origin.Since env.decls memory')
    {c : Call} (pure : ∀ v, c.subject = some v → origin.store.Pure env.decls env.codecs v)
    (depth : Nat) (m : Machine ω) :
    Alike Machine.Same ((c.run env (.ofDepth env depth)).run (m.holding memory))
      ((c.run env (.ofDepth env depth)).run (m.holding memory')) := by
  have beside : Machine.Beside env.decls origin (m.holding memory) (m.holding memory') :=
    ⟨⟨rfl, rfl, rfl⟩, since.remains, since'.remains⟩
  have undisturbed : Undisturbed (ω := ω) env.decls origin (c.run env (.ofDepth env depth)) :=
    undisturbed_iff.2 (Coupling.run_call (undisturbed_ofDepth env origin depth).writes pure)
  exact (undisturbed beside).imp fun m₁ m₁' left => left.toSame

end Call

/-- A link is pure if the next one is, where the bean brings no conventions and the codecs hand
nothing on. -/
theorem Link.pure_link {decls : Declarations} {codecs : CodecRegistry} (flat : codecs.Flat)
    {s : Store} (bare : s.mapping 0 = .empty) {next : Option Value}
    (h : ∀ u, next = some u → s.Pure decls codecs u) (name : List UInt8) :
    s.Pure decls codecs (Link.link next name) := by
  refine (Store.pure_iff flat).2 ⟨trivial, fun w part => ?_⟩
  cases part with
  | exposed exposes => cases exposes
  | field mem =>
    rcases List.mem_cons.1 mem with rfl | mem
    · refine (Store.pure_iff flat).2 ⟨trivial, fun u part => ?_⟩
      cases part with
      | exposed exposes =>
        cases exposes with
        | optional => exact h u rfl
    · obtain rfl := List.mem_singleton.1 mem
      refine (Store.pure_iff flat).2 ⟨trivial, fun u part => ?_⟩
      cases part with
      | exposed exposes => cases exposes
  | convention found =>
    rw [Store.conventionValue, bare] at found
    cases found

/-- A chain whose second link is still to be made, by a lazy value that a provider hands out, is
written twice. The first pass leaves a writer, a description and a link that is made, and the
second one writes the same. -/
theorem Call.run_since_link :
    let supply : Supply := .mapped (.reading 1) .keep
    let store : Store :=
      { boxes := Table.empty.set 1 (some (.lazy 0))
        lazies := Table.empty.set 0 (.pending (.fixed (some (Link.link none [98])))) }
    let m : Machine := { Link.machine with store }
    let c := Call.bean (Link.link (some (.provider 2 supply)) [97])
    let once := (c.run Link.env (.ofDepth Link.env 3)).run m
    let twice := (c.run Link.env (.ofDepth Link.env 3)).run (m.holding (aftermath once).memory)
    Outcome.isDone once = true ∧ ((aftermath once).store.lazyState 0).isPending = false ∧
      Alike Machine.Same once twice := by
  intro supply store m c once twice
  refine ⟨by decide +kernel, by decide +kernel, ?_⟩
  have flat : Link.env.codecs.Flat := CodecRegistry.flat_builtin
  have second : store.Pure Link.env.decls Link.env.codecs (Link.link none [98]) := by
    refine Link.pure_link flat rfl ?_ [98]
    rintro u ⟨⟩
  have pending : store.Pure Link.env.decls Link.env.codecs (.lazy 0) := by
    refine (Store.pure_iff flat).2 ⟨⟨_, .makes rfl (.fixed _)⟩, fun w part => ?_⟩
    cases part with
    | exposed exposes =>
      cases exposes with
      | lazy settles =>
        cases settles with
        | fixed state =>
          cases state
          exact second
        | ready state | reading state | forcing state | message _ state | describing _ state
        | querying state => cases state
  have provided : store.Pure Link.env.decls Link.env.codecs (.provider 2 supply) := by
    refine (Store.pure_iff flat).2 ⟨Store.exists_supplies trivial, fun w part => ?_⟩
    cases part with
    | exposed exposes =>
      cases exposes with
      | provider offers =>
        change store.Offers _ (.mapped (.reading 1) .keep) w at offers
        cases offers with
        | mapped source keep =>
          cases source with
          | reading content =>
            cases keep
            cases content
            exact pending
  have again : m.memory.Since Link.env.decls (aftermath once).memory :=
    .single (.pass c 3 m rfl)
  refine Call.run_since .refl again (fun v subject => ?_) 3 m
  cases subject
  refine Link.pure_link flat rfl ?_ [97]
  rintro u ⟨⟩
  exact provided

end BeanStream
