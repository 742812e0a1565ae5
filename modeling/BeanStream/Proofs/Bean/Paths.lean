import BeanStream.Proofs.Bean.Coherence
import BeanStream.Proofs.Table

/-!
# The two tables of a registry stay in step

A registry finds registrations by type, and types by type path. Types may be registered in any
order, several of them under one path, and again under other paths; what counts are the
**insertions** that this comes to (`Beans.insertions`), one for each type, with the path that the
type had by then.

Main fact: after any row of requests, the registrations are those insertions, under each path the
type that was inserted last is found, and automatic registration, once it was asked for at any time,
changes nothing any more (`Beans.inStep_after`). What carries this from request to request is
`BeanRegistry.Represents`; it speaks of an order of the registrations, which is the one that tables
happen to have, and `BeanRegistry.InStep` does not.
-/

namespace BeanStream

/-! ### Insertions -/

/-- Adds an insertion, unless there is one of the type. -/
def note (log : List (TypeId × String)) (e : TypeId × String) : List (TypeId × String) :=
  if e.1 ∈ log.map Prod.fst then log else log ++ [e]

/-- The last insertion under a path is that of this type. -/
def Latest (log : List (TypeId × String)) (path : String) (type : TypeId) : Prop :=
  ∃ earlier later, log = earlier ++ (type, path) :: later ∧ ∀ e ∈ later, e.2 ≠ path

theorem latest_concat {log : List (TypeId × String)} {e : TypeId × String} {path : String}
    {type : TypeId} :
    Latest (log ++ [e]) path type ↔ if e.2 = path then e.1 = type else Latest log path type := by
  simp only [Latest, concat_eq_split_iff]
  split
  · rename_i last
    constructor
    · rintro ⟨earlier, later, ⟨-, -, rfl⟩ | ⟨front, rfl, -⟩, others⟩
      · rfl
      · exact absurd last (others e (by simp))
    · rintro rfl
      subst last
      exact ⟨log, [], .inl ⟨rfl, rfl, rfl⟩, by simp⟩
  · rename_i other
    constructor
    · rintro ⟨earlier, later, ⟨-, -, rfl⟩ | ⟨front, rfl, split⟩, others⟩
      · exact absurd rfl other
      · exact ⟨earlier, front, split, fun e' mem => others e' (List.mem_append_left _ mem)⟩
    · rintro ⟨earlier, later, split, others⟩
      refine ⟨earlier, later ++ [e], .inr ⟨later, rfl, split⟩, fun e' mem => ?_⟩
      rcases List.mem_append.1 mem with mem | mem
      · exact others e' mem
      · obtain rfl := List.mem_singleton.1 mem
        exact other

/-- Under each path with an insertion, there is a last one. -/
theorem exists_latest {log : List (TypeId × String)} {path : String} (h : path ∈ log.map Prod.snd) :
    ∃ type, Latest log path type := by
  induction log using List.reverseRecOn with
  | nil => cases h
  | append_singleton log e ih =>
    simp only [latest_concat]
    split
    · exact ⟨e.1, rfl⟩
    · rename_i other
      refine ih ?_
      simpa [Ne.symm other] using h

namespace BeanRegistry

variable {r : BeanRegistry} {log : List (TypeId × String)}

/-- The registry is the one that these insertions lead to. -/
structure Represents (r : BeanRegistry) (log : List (TypeId × String)) : Prop where
  entries : r.registrations.entries.map (fun e => (e.1, e.2.path)) = log
  index : ∀ path type, r.typeOf? path = some type ↔ Latest log path type

namespace Represents

theorem contains_iff (h : r.Represents log) (type : TypeId) :
    r.contains type = true ↔ type ∈ log.map Prod.fst := by
  rw [contains, Table.contains_iff_mem_keys, ← h.entries, List.map_map]
  rfl

theorem add (h : r.Represents log) (type : TypeId) (registration : Registration) :
    (r.add type registration).2.Represents (note log (type, registration.path)) := by
  by_cases registered : r.contains type = true
  · rw [add_of_contains registered, note, if_pos ((h.contains_iff type).1 registered)]
    exact h
  · rw [note, if_neg fun logged => registered ((h.contains_iff type).2 logged), BeanRegistry.add,
      if_neg registered]
    constructor
    · rw [Table.entries_set_of_get?_eq_none
        (contains_eq_false_iff.1 (Bool.eq_false_iff.2 registered)), List.map_append, h.entries]
      rfl
    · intro path other
      rw [latest_concat, typeOf?, Table.get?_set]
      by_cases same : path = registration.path
      · rw [if_pos same, if_pos same.symm, Option.some_inj]
      · rw [if_neg same, if_neg (Ne.symm same)]
        exact h.index path other

theorem foldl_register (h : r.Represents log) (decls : Declarations) (types : List TypeId) :
    (types.foldl (fun r type => (r.register decls type).2) r).Represents
      ((types.map fun type => (type, decls.path type)).foldl note log) := by
  induction types generalizing r log with
  | nil => exact h
  | cons type types ih => exact ih (h.add type (.deferred (decls.path type) none))

/-- Looking a type up leaves its path as it is. -/
theorem looksUp (h : r.Represents log) {decls : Declarations} {type : TypeId}
    {result : EStateM.Result Abort BeanRegistry (Option Descriptor)}
    (looksUp : LooksUp decls type r result) : (aftermath result).Represents log := by
  cases looksUp with
  | missing | known => exact h
  | @described path d registered describes =>
    have entries := Table.map_entries_set (v := .deferred path (some d)) registered
      Registration.path rfl
    exact ⟨entries.trans h.entries, h.index⟩
  | panicked => exact ⟨h.entries, h.index⟩

end Represents

/-- What is certain of a registry that these insertions lead to. -/
structure InStep (r : BeanRegistry) (log : List (TypeId × String)) : Prop where
  /-- A type is registered if it was not, and otherwise nothing changes. -/
  registering (decls : Declarations) (type : TypeId) :
    ((r.register decls type).1 = true ↔ r.contains type = false) ∧
      (r.contains type = true → (r.register decls type).2 = r)
  /-- So it is with a descriptor. -/
  inserting (d : Descriptor) :
    ((r.insert d).1 = true ↔ r.contains d.type = false) ∧
      (r.contains d.type = true → (r.insert d).2 = r)
  /-- What is found under a path is a type with this path. -/
  indexed {path : String} {type : TypeId} (found : r.typeOf? path = some type) :
    ∃ registration, r.registrations.get? type = some registration ∧ registration.path = path
  /-- Under the path of a type, some type is found. -/
  recorded {type : TypeId} {registration : Registration}
    (registered : r.registrations.get? type = some registration) :
    ∃ other, r.typeOf? registration.path = some other
  /-- It is the one that was inserted last under this path. -/
  latest (path : String) (type : TypeId) : r.typeOf? path = some type ↔ Latest log path type
  /-- The types that are registered, with their paths, are those that were inserted, -/
  logged (type : TypeId) (path : String) :
    (∃ registration, r.registrations.get? type = some registration ∧ registration.path = path) ↔
      (type, path) ∈ log
  /-- each of them once. -/
  once : (log.map Prod.fst).Nodup
  size : r.size = log.length
  /-- The type paths are listed in any order. -/
  typePaths : r.typePaths.Perm (log.map Prod.snd)
  /-- A descriptor is looked up under a path by way of the type that is found there, -/
  withPath (decls : Declarations) (path : String) :
    getWithPath? decls path r =
      match r.typeOf? path with
      | none => .ok none r
      | some type => get? decls type r
  /-- and none is there exactly if no type has the path. -/
  withoutPath (decls : Declarations) (path : String) :
    answer (getWithPath? decls path r) = .ok none ↔
      ∀ type registration, r.registrations.get? type = some registration → registration.path ≠ path

/-- A type that is registered once more is not added. -/
private theorem add_spec (type : TypeId) (registration : Registration) (r : BeanRegistry) :
    ((r.add type registration).1 = true ↔ r.contains type = false) ∧
      (r.contains type = true → (r.add type registration).2 = r) := by
  rw [fst_add, Bool.not_eq_true']
  exact ⟨Iff.rfl, fun registered => by rw [add_of_contains registered]⟩

namespace Represents

theorem logged (h : r.Represents log) (type : TypeId) (path : String) :
    (∃ registration, r.registrations.get? type = some registration ∧ registration.path = path) ↔
      (type, path) ∈ log := by
  simp only [← h.entries, List.mem_map, Prod.exists, Prod.mk.injEq, Table.mem_entries_iff]
  constructor
  · rintro ⟨registration, registered, same⟩
    exact ⟨type, registration, registered, rfl, same⟩
  · rintro ⟨other, registration, registered, rfl, same⟩
    exact ⟨registration, registered, same⟩

/-- Under the path of a type, some type is found. -/
theorem recorded (h : r.Represents log) {type : TypeId} {registration : Registration}
    (registered : r.registrations.get? type = some registration) :
    ∃ other, r.typeOf? registration.path = some other := by
  have listed : (type, registration.path) ∈ log := (h.logged _ _).1 ⟨registration, registered, rfl⟩
  obtain ⟨other, latest⟩ := exists_latest (List.mem_map.2 ⟨_, listed, rfl⟩)
  exact ⟨other, (h.index _ other).2 latest⟩

/-- What is found under a path is a type with this path. -/
theorem indexed (h : r.Represents log) {path : String} {type : TypeId}
    (found : r.typeOf? path = some type) :
    ∃ registration, r.registrations.get? type = some registration ∧ registration.path = path := by
  obtain ⟨earlier, later, split, -⟩ := (h.index path type).1 found
  exact (h.logged type path).2 (by simp [split])

theorem inStep (h : r.Represents log) : r.InStep log where
  registering _ type := add_spec type _ r
  inserting d := add_spec d.type _ r
  indexed := h.indexed
  recorded := h.recorded
  latest := h.index
  logged := h.logged
  once := by
    rw [← h.entries, List.map_map]
    exact r.registrations.nodup
  size := by rw [← h.entries, List.length_map, size, Table.size]
  typePaths := by
    have inOrder : r.typePaths = log.map Prod.snd := by
      rw [← h.entries, typePaths, Table.values, List.map_map, List.map_map]
      rfl
    exact .of_eq inOrder
  withPath := fun decls path => getWithPath?_eq decls path r
  withoutPath decls path := by
    rw [getWithPath?_eq]
    rcases found : r.typeOf? path with _ | type
    · refine ⟨fun _ type registration registered same => ?_, fun _ => rfl⟩
      obtain ⟨other, there⟩ := h.recorded registered
      rw [same, found] at there
      cases there
    · obtain ⟨registration, registered, same⟩ := h.indexed found
      refine ⟨fun nothing => ?_, fun others => absurd same (others type registration registered)⟩
      have absent := (looksUp_get? decls type r).answer_eq_none_iff.1 nothing
      cases absent.symm.trans (contains_of_get? registered)

end Represents

end BeanRegistry

namespace Beans

open BeanRegistry

/-- The types that are registered by a request, with their paths, as far as they are not registered
yet. -/
def Request.inserts (log : List (TypeId × String)) : Request → List (TypeId × String)
  | .register decls type => [(type, decls.path type)]
  | .insert d => [(d.type, d.path)]
  | .autoRegister decls asking =>
    if availability ∈ log.map Prod.fst then []
    else (availability :: asking).map fun type => (type, decls.path type)
  | _ => []

/-- The insertions that a row of requests comes to, in their order. -/
def insertions (qs : List Request) : List (TypeId × String) :=
  qs.foldl (fun log q => (q.inserts log).foldl note log) []

/-- A request makes the insertions that it comes to. -/
theorem represents_perform {b : Beans} {log : List (TypeId × String)} (backed : b.Backed)
    (h : b.registry.Represents log) (q : Request) :
    (q.perform b).2.registry.Represents ((q.inserts log).foldl note log) := by
  have asked {decls : Declarations} {type : TypeId} (looks : q.lookup? b = some (decls, type)) :
      (q.perform b).2.registry.Represents log := by
    obtain ⟨result, looksUp, -, left⟩ := Request.looksUp_perform backed looks
    exact left ▸ h.looksUp looksUp
  cases q with
  | register decls type => exact h.add type _
  | insert d => exact h.add d.type _
  | autoRegister decls asking =>
    change (b.registry.autoRegister decls asking).2.Represents _
    rw [autoRegister, Request.inserts]
    by_cases registered : b.registry.contains availability = true
    · rw [if_pos registered, if_pos ((h.contains_iff _).1 registered)]
      exact h
    · rw [if_neg registered, if_neg fun logged => registered ((h.contains_iff _).2 logged)]
      exact h.foldl_register decls (availability :: asking)
  | descriptor decls type => exact asked rfl
  | descriptorAt decls path =>
    rcases place : b.registry.typeOf? path with _ | type
    · rw [Request.perform, Request.perform_inRegistry, getWithPath?_eq, place]
      exact h
    · exact asked (by rw [Request.lookup?, place]; rfl)
  | writer decls type => exact asked rfl
  | hasWriter | countWriters => exact h

theorem represents_after (qs : List Request) :
    (after qs).registry.Represents (insertions qs) := by
  induction qs using List.reverseRecOn with
  | nil =>
    refine ⟨rfl, fun path type => ⟨nofun, ?_⟩⟩
    rintro ⟨earlier, later, split, -⟩
    exact absurd split (by simp [insertions])
  | append_singleton qs q ih =>
    rw [after_concat, insertions, List.foldl_append]
    exact represents_perform (backed_after qs) ih q

/-- The type that tells of automatic registration is there from then on. -/
theorem contains_availability_after {qs : List Request} {decls : Declarations}
    {asking : List TypeId} (asked : Request.autoRegister decls asking ∈ qs) :
    (after qs).registry.contains availability = true := by
  obtain ⟨earlier, later, rfl⟩ := List.mem_iff_append.1 asked
  have there := contains_autoRegister decls asking (after earlier).registry
  exact (grows_behind earlier (.autoRegister decls asking) later).contains availability there

/-- The two tables of a registry are in step after any row of requests, and once automatic
registration was among them, another one changes nothing. -/
theorem inStep_after (qs : List Request) :
    (after qs).registry.InStep (insertions qs) ∧
      ∀ decls asking, Request.autoRegister decls asking ∈ qs → ∀ decls' asking',
        (after qs).registry.autoRegister decls' asking' = (true, (after qs).registry) := by
  refine ⟨(represents_after qs).inStep, fun decls asking asked decls' asking' => ?_⟩
  rw [autoRegister, if_pos (contains_availability_after asked)]

end Beans

end BeanStream
