import BeanStream.Proofs.Bean.Requests

/-!
# A registry and its writers stay coherent

Descriptors are kept in two places: by the registry, with the registration of their type, and by the
writers. The two are filled at different times, while types are still being registered, and with
declarations that panic now and then. What keeps them coherent is that a writer is **backed** by the
registry (`Beans.Backed`): the descriptor that it has is the one that is there for its type.

Main fact: after any row of requests, **no type is described twice**, everything that is found for a
type is the one descriptor, and what is not found, or panics, leaves everything as it was
(`Beans.coherent_after`).
-/

namespace BeanStream

namespace Beans

open BeanRegistry

/-- Every writer is the descriptor that the registry has for its type. -/
def Backed (b : Beans) : Prop :=
  ∀ type d, b.writers.get? type = some d → b.registry.built? type = some d

namespace Request

variable {b : Beans} {q : Request} {decls : Declarations} {type : TypeId} {d : Descriptor}

/-- The declaration of a type is called. -/
def Calls (b : Beans) (type : TypeId) (q : Request) : Prop :=
  (q.perform b).2.registry.builds = type :: b.registry.builds

/-- A type is looked up, and the reply is its descriptor, or its writer. -/
def Finds (b : Beans) (type : TypeId) (d : Descriptor) (q : Request) : Prop :=
  ∃ decls, q.lookup? b = some (decls, type) ∧ (q.perform b).1 = .found (some d)

/-- A writer is asked for and handed out. -/
def Hands (b : Beans) (type : TypeId) (d : Descriptor) (q : Request) : Prop :=
  ∃ decls, q = .writer decls type ∧ (q.perform b).1 = .found (some d)

theorem Hands.finds (h : q.Hands b type d) : q.Finds b type d := by
  obtain ⟨decls, rfl, found⟩ := h
  exact ⟨decls, rfl, found⟩

/-- The reply is that nothing was found, or there is none. -/
def Fails (b : Beans) (q : Request) : Prop :=
  (q.perform b).1 = .found none ∨ (q.perform b).1 = .panicked

/-! ### What a request does -/

theorem perform_inRegistry (query : EStateM Abort BeanRegistry (Option Descriptor)) (b : Beans) :
    ask (inRegistry query) b =
      (.ofAnswer (answer (query b.registry)),
        { b with registry := aftermath (query b.registry) }) := by
  rw [ask, inRegistry]
  rcases query b.registry with ⟨d, registry⟩ | ⟨reason, registry⟩ <;> rfl

/-- A writer that is there is handed out. -/
theorem perform_writer_of_cached (cached : b.writers.get? type = some d) (decls : Declarations) :
    (writer decls type).perform b = (.found (some d), b) := by
  rw [perform, ask, writer?_of_cached cached]
  rfl

/-- A writer that is not there is made, if the registry has a descriptor. -/
theorem perform_writer_of_not_cached (missing : b.writers.get? type = none) (decls : Declarations) :
    (writer decls type).perform b =
      (.ofAnswer (answer (get? decls type b.registry)),
        { registry := aftermath (get? decls type b.registry)
          writers := match answer (get? decls type b.registry) with
            | .ok (some d) => b.writers.set type d
            | _ => b.writers }) := by
  rw [perform, ask, writer?_of_not_cached missing]
  rcases get? decls type b.registry with ⟨_ | d, registry⟩ | ⟨reason, registry⟩ <;> rfl

/-- Whatever looks a type up, looks it up in the registry. -/
theorem looksUp_perform (backed : b.Backed) (h : q.lookup? b = some (decls, type)) :
    ∃ result, LooksUp decls type b.registry result ∧ (q.perform b).1 = .ofAnswer (answer result) ∧
      (q.perform b).2.registry = aftermath result := by
  have asked : LooksUp decls type b.registry _ := looksUp_get? decls type b.registry
  cases q with
  | register | insert | autoRegister | hasWriter | countWriters => cases h
  | descriptor decls' type' =>
    cases h
    rw [perform, perform_inRegistry]
    exact ⟨_, asked, rfl, rfl⟩
  | descriptorAt decls' path =>
    obtain ⟨type', found, same⟩ := Option.map_eq_some_iff.1 h
    cases same
    rw [perform, perform_inRegistry, getWithPath?_eq, found]
    exact ⟨_, asked, rfl, rfl⟩
  | writer decls' type' =>
    cases h
    rcases cached : b.writers.get? type with _ | d
    · rw [perform_writer_of_not_cached cached]
      exact ⟨_, asked, rfl, rfl⟩
    · rw [perform_writer_of_cached cached]
      exact ⟨_, .known (backed type d cached), rfl, rfl⟩

/-- What looks nothing up calls no declaration, and finds nothing. -/
theorem perform_of_no_lookup (h : q.lookup? b = none) :
    b.registry.Registers (q.perform b).2.registry ∧ ∀ d, (q.perform b).1 ≠ .found (some d) := by
  cases q with
  | descriptor | writer => cases h
  | register decls type => exact ⟨registers_add type _ _, nofun⟩
  | insert d => exact ⟨registers_add d.type _ _, nofun⟩
  | autoRegister decls asking => exact ⟨registers_autoRegister decls asking _, nofun⟩
  | descriptorAt decls path =>
    rw [perform, perform_inRegistry, getWithPath?_eq, Option.map_eq_none_iff.1 h]
    exact ⟨.refl _, nofun⟩
  | hasWriter | countWriters => exact ⟨.refl _, nofun⟩

/-- Whatever is asked, the registry grows. -/
theorem grows_perform (backed : b.Backed) (q : Request) :
    b.registry.Grows (q.perform b).2.registry := by
  rcases target : q.lookup? b with _ | ⟨decls, type⟩
  · exact (perform_of_no_lookup target).1.toGrows
  · obtain ⟨result, looksUp, -, left⟩ := looksUp_perform backed target
    exact left ▸ looksUp.grows

/-- What was found is there from then on. -/
theorem Finds.built (backed : b.Backed) (h : q.Finds b type d) :
    (q.perform b).2.registry.built? type = some d := by
  obtain ⟨decls, target, found⟩ := h
  obtain ⟨result, looksUp, reply, left⟩ := looksUp_perform backed target
  rw [left]
  exact looksUp.built (Reply.ofAnswer_eq_found_iff.1 (reply.symm.trans found))

/-- Of a type whose descriptor is there, nothing else is found. -/
theorem Finds.eq_of_built (backed : b.Backed) {d' : Descriptor}
    (built : b.registry.built? type = some d) (h : q.Finds b type d') : d' = d := by
  obtain ⟨decls, target, found⟩ := h
  obtain ⟨result, looksUp, reply, -⟩ := looksUp_perform backed target
  rw [looksUp.of_built built] at reply
  cases reply.symm.trans found
  rfl

/-- The declaration that is called is that of the type that is looked up, which is registered and
has no descriptor yet. If it describes the type, this is what is found. -/
theorem Calls.spec (backed : b.Backed) (h : q.Calls b type) :
    ∃ decls, q.lookup? b = some (decls, type) ∧ b.registry.contains type = true ∧
      b.registry.built? type = none ∧
      ∀ d, (q.perform b).1 = .found (some d) ↔ decls.describe type = .ok (.ok d) := by
  rw [Calls] at h
  rcases target : q.lookup? b with _ | ⟨decls, type'⟩
  · rw [(perform_of_no_lookup target).1.builds] at h
    exact absurd h.symm (List.cons_ne_self _ _)
  obtain ⟨result, looksUp, reply, left⟩ := looksUp_perform backed target
  rw [left] at h
  cases looksUp with
  | missing | known => exact absurd h.symm (List.cons_ne_self _ _)
  | @described path d registered describes =>
    obtain rfl : type' = type := (List.cons.inj h).1
    refine ⟨decls, rfl, contains_of_get? registered, built?_of_get? registered, fun d' => ?_⟩
    rw [reply, Reply.ofAnswer_eq_found_iff, describes]
    simp [answer]
  | panicked reason registered fails =>
    obtain rfl : type' = type := (List.cons.inj h).1
    refine ⟨decls, rfl, contains_of_get? registered, built?_of_get? registered, fun d' => ?_⟩
    rw [reply]
    constructor
    · intro found
      cases found
    · intro describes
      exact absurd describes (fails d')

/-- At most one declaration is called. -/
theorem builds_perform (backed : b.Backed) (q : Request) :
    (q.perform b).2.registry.builds = b.registry.builds ∨ ∃ type, q.Calls b type := by
  rcases target : q.lookup? b with _ | ⟨decls, type⟩
  · exact .inl (perform_of_no_lookup target).1.builds
  obtain ⟨result, looksUp, -, left⟩ := looksUp_perform backed target
  rw [left]
  cases looksUp with
  | missing | known => exact .inl rfl
  | described | panicked => exact .inr ⟨type, congrArg BeanRegistry.builds left⟩

/-- What fails leaves everything as it was, but for the note that a declaration was called. -/
theorem Fails.unchanged (h : q.Fails b) :
    ∃ builds, (q.perform b).2 = { b with registry := { b.registry with builds } } := by
  have asked (decls : Declarations) (type : TypeId) :
      LooksUp decls type b.registry (get? decls type b.registry) :=
    looksUp_get? decls type b.registry
  have nothing {a : Except Abort (Option Descriptor)}
      (fails : Reply.ofAnswer a = .found none ∨ Reply.ofAnswer a = .panicked) (d : Descriptor) :
      a ≠ .ok (some d) := by
    rintro rfl
    rcases fails with fails | fails <;> cases fails
  cases q with
  | register | insert | autoRegister | hasWriter | countWriters => rcases h with h | h <;> cases h
  | descriptor decls type =>
    rw [Fails, perform, perform_inRegistry] at h
    obtain ⟨builds, same⟩ := (asked decls type).unchanged (nothing h)
    rw [perform, perform_inRegistry, same]
    exact ⟨builds, rfl⟩
  | descriptorAt decls path =>
    rcases place : b.registry.typeOf? path with _ | type
    · rw [perform, perform_inRegistry, getWithPath?_eq, place]
      exact ⟨_, rfl⟩
    · rw [Fails, perform, perform_inRegistry, getWithPath?_eq, place] at h
      obtain ⟨builds, same⟩ := (asked decls type).unchanged (nothing h)
      rw [perform, perform_inRegistry, getWithPath?_eq, place, same]
      exact ⟨builds, rfl⟩
  | writer decls type =>
    rcases cached : b.writers.get? type with _ | d
    · rw [Fails, perform_writer_of_not_cached cached] at h
      obtain ⟨builds, same⟩ := (asked decls type).unchanged (nothing h)
      rw [perform_writer_of_not_cached cached, same]
      refine ⟨builds, ?_⟩
      split
      · rename_i d found
        exact absurd found (nothing h d)
      · rfl
    · rw [perform_writer_of_cached cached]
      exact ⟨_, rfl⟩

/-- Which declarations were called makes no difference to any reply. -/
theorem reply_perform_congr {b' : Beans} (q : Request)
    (registrations : b.registry.registrations = b'.registry.registrations)
    (paths : b.registry.paths = b'.registry.paths) (writers : b.writers = b'.writers) :
    (q.perform b).1 = (q.perform b').1 := by
  have contains (type : TypeId) : b.registry.contains type = b'.registry.contains type := by
    rw [BeanRegistry.contains, BeanRegistry.contains, registrations]
  have asked (decls : Declarations) (type : TypeId) :
      answer (get? decls type b.registry) = answer (get? decls type b'.registry) :=
    answer_get?_congr (registrations ▸ rfl)
  have added (type : TypeId) (registration : Registration) :
      (b.registry.add type registration).1 = (b'.registry.add type registration).1 := by
    rw [fst_add, fst_add, contains]
  cases q with
  | register decls type => exact congrArg Reply.flag (added type _)
  | insert d => exact congrArg Reply.flag (added d.type _)
  | autoRegister decls asking =>
    exact congrArg Reply.flag
      ((fst_autoRegister decls asking _).trans (fst_autoRegister decls asking _).symm)
  | descriptor decls type =>
    rw [perform, perform_inRegistry, perform, perform_inRegistry]
    exact congrArg Reply.ofAnswer (asked decls type)
  | descriptorAt decls path =>
    have place : b.registry.typeOf? path = b'.registry.typeOf? path := by
      rw [typeOf?, typeOf?, paths]
    rw [perform, perform_inRegistry, getWithPath?_eq, perform, perform_inRegistry, getWithPath?_eq,
      place]
    rcases b'.registry.typeOf? path with _ | type
    · rfl
    · exact congrArg Reply.ofAnswer (asked decls type)
  | writer decls type =>
    refine congrArg Reply.ofAnswer ?_
    rw [answer_writer?, answer_writer?, writers, asked decls type]
  | hasWriter type =>
    exact congrArg (fun t : TypeMap Descriptor => Reply.flag (t.contains type)) writers
  | countWriters => exact congrArg (fun t : TypeMap Descriptor => Reply.count t.size) writers

/-- Writers are there if they were, or if they are handed out. -/
theorem get?_writers_perform (q : Request) (b : Beans) :
    (q.perform b).2.writers.get? type = some d ↔
      q.Hands b type d ∨ b.writers.get? type = some d := by
  cases q with
  | register | insert | autoRegister | hasWriter | countWriters => simp [Hands, perform]
  | descriptor decls other | descriptorAt decls path =>
    rw [perform, perform_inRegistry]
    simp [Hands]
  | writer decls other =>
    have hands : (writer decls other).Hands b type d ↔
        other = type ∧ ((writer decls other).perform b).1 = .found (some d) := by
      constructor
      · rintro ⟨decls', ⟨⟩, found⟩
        exact ⟨rfl, found⟩
      · rintro ⟨rfl, found⟩
        exact ⟨decls, rfl, found⟩
    rw [hands]
    rcases cached : b.writers.get? other with _ | d'
    · rw [perform_writer_of_not_cached cached, Reply.ofAnswer_eq_found_iff]
      rcases answer (get? decls other b.registry) with reason | _ | d'
      · simp
      · simp
      · rw [Table.get?_set]
        by_cases same : type = other
        · subst same
          simp [cached]
        · simp [same, Ne.symm same]
    · rw [perform_writer_of_cached cached]
      refine ⟨.inr, ?_⟩
      rintro (⟨rfl, ⟨⟩⟩ | there)
      · exact cached
      · exact there

/-- Requests keep writers backed. -/
theorem backed_perform (backed : b.Backed) (q : Request) : (q.perform b).2.Backed := by
  intro type d there
  rcases (get?_writers_perform q b).1 there with hands | there
  · exact hands.finds.built backed
  · exact (grows_perform backed q).built type d (backed type d there)

end Request

/-! ### Rows of requests -/

/-- Whatever was asked, writers are backed. -/
theorem backed_after (qs : List Request) : (after qs).Backed := by
  induction qs using List.reverseRecOn with
  | nil =>
    intro type d there
    cases there
  | append_singleton qs q ih =>
    rw [after_concat]
    exact Request.backed_perform ih q

/-- Whatever is asked later, the registry grows. -/
theorem grows_after (earlier later : List Request) :
    (after earlier).registry.Grows (after (earlier ++ later)).registry := by
  induction later using List.reverseRecOn with
  | nil =>
    rw [List.append_nil]
    exact .refl _
  | append_singleton later q ih =>
    rw [← List.append_assoc, after_concat]
    exact ih.trans (Request.grows_perform (backed_after _) q)

/-- What a request leaves in the registry is there after whatever was asked later. -/
theorem grows_behind (earlier : List Request) (q : Request) (later : List Request) :
    (q.perform (after earlier)).2.registry.Grows (after (earlier ++ q :: later)).registry := by
  have grown := grows_after (earlier ++ [q]) later
  rwa [List.append_assoc, List.singleton_append, after_concat] at grown

/-- What was found is there after whatever was asked later. -/
theorem built_after {earlier : List Request} {q : Request} {type : TypeId} {d : Descriptor}
    (h : q.Finds (after earlier) type d) (between : List Request) :
    (after (earlier ++ q :: between)).registry.built? type = some d :=
  (grows_behind earlier q between).built type d (h.built (backed_after earlier))

/-- A writer of the type was asked for at some time, and was handed out. -/
def Handed (qs : List Request) (type : TypeId) (d : Descriptor) : Prop :=
  ∃ earlier q later, qs = earlier ++ q :: later ∧ q.Hands (after earlier) type d

theorem handed_concat {qs : List Request} {q : Request} {type : TypeId} {d : Descriptor} :
    Handed (qs ++ [q]) type d ↔ q.Hands (after qs) type d ∨ Handed qs type d := by
  simp only [Handed, concat_eq_split_iff]
  constructor
  · rintro ⟨earlier, q', later, ⟨-, rfl, rfl⟩ | ⟨front, -, split⟩, hands⟩
    · exact .inl hands
    · exact .inr ⟨earlier, q', front, split, hands⟩
  · rintro (hands | ⟨earlier, q', later, split, hands⟩)
    · exact ⟨qs, q, [], .inl ⟨rfl, rfl, rfl⟩, hands⟩
    · exact ⟨earlier, q', later ++ [q], .inr ⟨later, rfl, split⟩, hands⟩

/-- The writers that are there are those that were handed out. -/
theorem get?_writers_after {qs : List Request} {type : TypeId} {d : Descriptor} :
    (after qs).writers.get? type = some d ↔ Handed qs type d := by
  induction qs using List.reverseRecOn with
  | nil =>
    refine ⟨nofun, ?_⟩
    rintro ⟨earlier, q, later, split, -⟩
    exact absurd split (by simp)
  | append_singleton qs q ih =>
    rw [after_concat, Request.get?_writers_perform, handed_concat, ih]

theorem Handed.append {qs : List Request} {type : TypeId} {d : Descriptor}
    (h : Handed qs type d) (qs' : List Request) : Handed (qs ++ qs') type d := by
  obtain ⟨earlier, q, later, rfl, hands⟩ := h
  exact ⟨earlier, q, later ++ qs', by simp, hands⟩

/-- What is certain of every request that is made after these. -/
structure Coherent (earlier : List Request) : Prop where
  /-- What looks no type up, such as registering one, calls no declaration. -/
  registering {q : Request} (no : q.lookup? (after earlier) = none) :
    (q.perform (after earlier)).2.registry.builds = (after earlier).registry.builds
  /-- One declaration is called at most. -/
  calling (q : Request) :
    (q.perform (after earlier)).2.registry.builds = (after earlier).registry.builds ∨
      ∃ type, q.Calls (after earlier) type
  /-- It is that of the type that is looked up, which is registered and has no descriptor yet. What
  it describes, if it does, is what is found. -/
  called {q : Request} {type : TypeId} (calls : q.Calls (after earlier) type) :
    ∃ decls, q.lookup? (after earlier) = some (decls, type) ∧
      (after earlier).registry.contains type = true ∧
      (after earlier).registry.built? type = none ∧
      ∀ d, (q.perform (after earlier)).1 = .found (some d) ↔ decls.describe type = .ok (.ok d)
  /-- A declaration that described its type is not called again. -/
  once {q : Request} {type : TypeId} {d : Descriptor} (calls : q.Calls (after earlier) type)
    (describes : (q.perform (after earlier)).1 = .found (some d)) (between : List Request)
    (q' : Request) : ¬ q'.Calls (after (earlier ++ q :: between)) type
  /-- What is found for a type is what was found for it. -/
  same {q : Request} {type : TypeId} {d : Descriptor} (finds : q.Finds (after earlier) type d)
    (between : List Request) {q' : Request} {d' : Descriptor}
    (finds' : q'.Finds (after (earlier ++ q :: between)) type d') : d' = d
  /-- Nothing is found exactly for types that are not registered. -/
  missing {q : Request} {decls : Declarations} {type : TypeId}
    (looks : q.lookup? (after earlier) = some (decls, type)) :
    (q.perform (after earlier)).1 = .found none ↔ (after earlier).registry.contains type = false
  /-- Something is found exactly for registered types that are described, or can be. -/
  finding {q : Request} {decls : Declarations} {type : TypeId}
    (looks : q.lookup? (after earlier) = some (decls, type)) :
    (∃ d, (q.perform (after earlier)).1 = .found (some d)) ↔
      (after earlier).registry.contains type = true ∧
        ((∃ d, (after earlier).registry.built? type = some d) ∨
          ∃ d, decls.describe type = .ok (.ok d))
  /-- A type that was not registered before has a writer once it is. -/
  registered {type : TypeId} (absent : (after earlier).registry.contains type = false)
    (decls : Declarations) {decls' : Declarations} {d : Descriptor}
    (describes : decls'.describe type = .ok (.ok d)) :
    ((Request.writer decls' type).perform (after (earlier ++ [.register decls type]))).1 =
      .found (some d)
  /-- Where nothing is found, nothing changes, -/
  unchanged {q : Request} (fails : q.Fails (after earlier)) :
    ∃ builds, (q.perform (after earlier)).2 =
      { after earlier with registry := { (after earlier).registry with builds } }
  /-- and everything is replied as if nothing had been asked. -/
  again {q : Request} (fails : q.Fails (after earlier)) (q' : Request) :
    (q'.perform (after (earlier ++ [q]))).1 = (q'.perform (after earlier)).1
  /-- The writers that are there are those that were asked for and handed out, -/
  cached {type : TypeId} {d : Descriptor} :
    (after earlier).writers.get? type = some d ↔ Handed earlier type d
  /-- they stay, -/
  kept {type : TypeId} {d : Descriptor} (handed : Handed earlier type d) (later : List Request) :
    (after (earlier ++ later)).writers.get? type = some d
  /-- and this is what is told of them. -/
  told (type : TypeId) :
    ((Request.hasWriter type).perform (after earlier)).1 = .flag true ↔ ∃ d, Handed earlier type d
  /-- There is one of each type. -/
  counted : ∃ types : List TypeId, types.Nodup ∧
    (∀ type, type ∈ types ↔ ∃ d, Handed earlier type d) ∧
    (Request.countWriters.perform (after earlier)).1 = .count types.length

/-- A registry and its writers are coherent after any row of requests. -/
theorem coherent_after (earlier : List Request) : Coherent earlier where
  registering no := (Request.perform_of_no_lookup no).1.builds
  calling := Request.builds_perform (backed_after earlier)
  called calls := calls.spec (backed_after earlier)
  once {q type d} calls describes between q' calls' := by
    obtain ⟨decls, looks, -⟩ := calls.spec (backed_after earlier)
    have built := built_after ⟨decls, looks, describes⟩ between
    obtain ⟨-, -, -, unbuilt, -⟩ := calls'.spec (backed_after _)
    cases unbuilt.symm.trans built
  same finds between _ _ finds' := finds'.eq_of_built (backed_after _) (built_after finds between)
  missing {q decls type} looks := by
    obtain ⟨result, looksUp, reply, -⟩ := Request.looksUp_perform (backed_after earlier) looks
    rw [reply, Reply.ofAnswer_eq_found_iff, looksUp.answer_eq_none_iff]
  finding {q decls type} looks := by
    obtain ⟨result, looksUp, reply, -⟩ := Request.looksUp_perform (backed_after earlier) looks
    simp only [reply, Reply.ofAnswer_eq_found_iff, looksUp.exists_answer_iff]
  registered {type} absent decls decls' d describes := by
    have looks : (Request.writer decls' type).lookup? (after (earlier ++ [.register decls type])) =
        some (decls', type) := rfl
    have fresh : (after (earlier ++ [.register decls type])).registry.registrations.get? type =
        some (.deferred (decls.path type) none) := by
      rw [after_concat]
      change ((after earlier).registry.add type _).2.registrations.get? type = _
      rw [add, absent]
      exact (Table.get?_set _ _ _ _).trans (if_pos rfl)
    obtain ⟨result, looksUp, reply, -⟩ := Request.looksUp_perform (backed_after _) looks
    rw [reply, Reply.ofAnswer_eq_found_iff]
    exact looksUp.answer_of_describes fresh describes
  unchanged fails := fails.unchanged
  again {q} fails q' := by
    obtain ⟨builds, same⟩ := fails.unchanged
    rw [after_concat, same]
    exact q'.reply_perform_congr rfl rfl rfl
  cached := get?_writers_after
  kept handed later := get?_writers_after.2 (handed.append later)
  told type := by
    simp only [← get?_writers_after, ← Option.isSome_iff_exists]
    exact ⟨Reply.flag.inj, congrArg Reply.flag⟩
  counted := by
    refine ⟨(after earlier).writers.keys, (after earlier).writers.nodup, fun type => ?_, ?_⟩
    · simp only [← get?_writers_after, ← Option.isSome_iff_exists]
      exact Table.contains_iff_mem_keys.symm
    · exact congrArg Reply.count (List.length_map _).symm

end Beans

end BeanStream
