import BeanStream.Proofs.Bean.Writers
import Mathlib.Data.List.Induction

/-!
# What a registry and its writers are asked

A registry is shared: types are registered at any time, and descriptors and writers are looked up at
any time. Each of these is a `Beans.Request`, with the declarations that are in force when it is
made: what a type declares may differ from request to request, and so may whether it can be
described at all. `Beans.after` is what a row of requests leaves of a registry that was empty.

A lookup of a type ends in one of four ways (`BeanRegistry.LooksUp`), and the declaration of the
type is called in two of them. Whatever is asked, a registry only **grows** (`BeanRegistry.Grows`):
a registered type stays registered, and a descriptor that is there stays as it is.
-/

namespace BeanStream

/-! ### Lookups in a registry -/

namespace BeanRegistry

/-- The descriptor of a type, if it is there already. -/
def built? (r : BeanRegistry) (type : TypeId) : Option Descriptor :=
  (r.registrations.get? type).bind Registration.built?

/-- The registry, after the declaration of a type was called. -/
def called (r : BeanRegistry) (type : TypeId) : BeanRegistry :=
  { r with builds := type :: r.builds }

/-- What becomes of a lookup of a type. -/
inductive LooksUp (decls : Declarations) (type : TypeId) (r : BeanRegistry) :
    EStateM.Result Abort BeanRegistry (Option Descriptor) → Prop
  /-- The type is not registered. -/
  | missing (registered : r.registrations.get? type = none) : LooksUp decls type r (.ok none r)
  /-- Its descriptor is there. -/
  | known {d} (built : r.built? type = some d) : LooksUp decls type r (.ok (some d) r)
  /-- Its descriptor is built, and kept. -/
  | described {path d} (registered : r.registrations.get? type = some (.deferred path none))
      (describes : decls.describe type = .ok (.ok d)) :
      LooksUp decls type r (.ok (some d) { r.called type with
        registrations := r.registrations.set type (.deferred path (some d)) })
  /-- Its declaration panics, and nothing is kept. -/
  | panicked {path} (reason) (registered : r.registrations.get? type = some (.deferred path none))
      (fails : ∀ d, decls.describe type ≠ .ok (.ok d)) :
      LooksUp decls type r (.error reason (r.called type))

variable {r r' r'' : BeanRegistry} {decls : Declarations} {type : TypeId}

theorem looksUp_get? (decls : Declarations) (type : TypeId) (r : BeanRegistry) :
    LooksUp decls type r (get? decls type r) := by
  rcases registered : r.registrations.get? type with _ | ⟨path, _ | d⟩ | d
  · simp only [get?, registered]
    exact .missing registered
  · simp only [get?, registered]
    rcases describes : decls.describe type with reason | e | d
    · refine .panicked reason registered fun d wrong => ?_
      rw [describes] at wrong
      cases wrong
    · refine .panicked .panic registered fun d wrong => ?_
      rw [describes] at wrong
      cases wrong
    · exact .described registered describes
  · simp only [get?, registered]
    exact .known (by rw [built?, registered]; rfl)
  · simp only [get?, registered]
    exact .known (by rw [built?, registered]; rfl)

/-- A descriptor under a type path is looked up by the type that is found there. -/
theorem getWithPath?_eq (decls : Declarations) (path : String) (r : BeanRegistry) :
    getWithPath? decls path r =
      match r.typeOf? path with
      | none => .ok none r
      | some type => get? decls type r := by
  rw [getWithPath?]
  change (match r.typeOf? path with | none => _ | some type => _ : EStateM _ _ _) r = _
  rcases r.typeOf? path with _ | type <;> rfl

theorem contains_eq_false_iff : r.contains type = false ↔ r.registrations.get? type = none := by
  rw [contains, Table.contains, Option.isSome_eq_false_iff, Option.isNone_iff_eq_none]

theorem contains_of_get? {registration : Registration}
    (registered : r.registrations.get? type = some registration) : r.contains type = true := by
  rw [contains, Table.contains, registered, Option.isSome_some]

theorem built?_of_get? {registration : Registration}
    (registered : r.registrations.get? type = some registration) :
    r.built? type = registration.built? := by
  rw [built?, registered, Option.bind_some]

/-- Types with a descriptor are registered. -/
theorem contains_of_built {d : Descriptor} (h : r.built? type = some d) :
    r.contains type = true := by
  obtain ⟨registration, registered, -⟩ := Option.bind_eq_some_iff.1 h
  exact contains_of_get? registered

/-! ### Registries grow -/

/-- What was in the registry `r` is in `r'`. -/
structure Grows (r r' : BeanRegistry) : Prop where
  contains : ∀ type, r.contains type = true → r'.contains type = true
  built : ∀ type d, r.built? type = some d → r'.built? type = some d

namespace Grows

theorem refl (r : BeanRegistry) : r.Grows r := ⟨fun _ => id, fun _ _ => id⟩

theorem trans (h : r.Grows r') (h' : r'.Grows r'') : r.Grows r'' :=
  ⟨fun type registered => h'.contains type (h.contains type registered),
    fun type d built => h'.built type d (h.built type d built)⟩

/-- A type that has no descriptor yet is given a registration. -/
theorem of_set {registration : Registration} (unbuilt : r.built? type = none)
    (same : r'.registrations = r.registrations.set type registration) : r.Grows r' := by
  constructor
  · intro other registered
    rw [BeanRegistry.contains, Table.contains, same, Table.get?_set]
    split
    · rfl
    · exact registered
  · intro other d built
    rw [built?, same, Table.get?_set, if_neg]
    · exact built
    · rintro rfl
      cases unbuilt.symm.trans built

end Grows

/-- What registering types does: no declaration is called. -/
structure Registers (r r' : BeanRegistry) : Prop extends r.Grows r' where
  builds : r'.builds = r.builds

theorem Registers.refl (r : BeanRegistry) : r.Registers r := ⟨.refl r, rfl⟩

theorem Registers.trans (h : r.Registers r') (h' : r'.Registers r'') : r.Registers r'' :=
  ⟨h.toGrows.trans h'.toGrows, h'.builds.trans h.builds⟩

theorem registers_add (type : TypeId) (registration : Registration) (r : BeanRegistry) :
    r.Registers (r.add type registration).2 := by
  rw [add]
  split
  · exact .refl r
  · rename_i absent
    have missing : r.registrations.get? type = none :=
      contains_eq_false_iff.1 (Bool.eq_false_iff.2 absent)
    exact ⟨.of_set (by rw [built?, missing, Option.bind_none]) rfl, rfl⟩

theorem registers_foldl_register (decls : Declarations) (types : List TypeId) (r : BeanRegistry) :
    r.Registers (types.foldl (fun r type => (r.register decls type).2) r) := by
  induction types generalizing r with
  | nil => exact .refl r
  | cons type types ih => exact (registers_add type _ r).trans (ih _)

theorem registers_autoRegister (decls : Declarations) (asking : List TypeId) (r : BeanRegistry) :
    r.Registers (r.autoRegister decls asking).2 := by
  rw [autoRegister]
  split
  · exact .refl r
  · exact registers_foldl_register decls (availability :: asking) r

/-- A type that was added is registered, whether it was before or not. -/
theorem contains_add (type : TypeId) (registration : Registration) (r : BeanRegistry) :
    (r.add type registration).2.contains type = true := by
  rw [add]
  split
  · assumption
  · rw [contains, Table.contains, Table.get?_set, if_pos rfl, Option.isSome_some]

theorem fst_add (type : TypeId) (registration : Registration) (r : BeanRegistry) :
    (r.add type registration).1 = !r.contains type := by
  rw [add]
  rcases r.contains type with _ | _ <;> rfl

theorem contains_autoRegister (decls : Declarations) (asking : List TypeId) (r : BeanRegistry) :
    (r.autoRegister decls asking).2.contains availability = true := by
  rw [autoRegister]
  split
  · assumption
  · exact (registers_foldl_register decls asking _).contains _ (contains_add availability _ r)

/-- Automatic registration works. -/
theorem fst_autoRegister (decls : Declarations) (asking : List TypeId) (r : BeanRegistry) :
    (r.autoRegister decls asking).1 = true := by
  have registered : (r.autoRegister decls asking).2.contains availability = true :=
    contains_autoRegister decls asking r
  rw [autoRegister] at registered ⊢
  split
  · rfl
  · rename_i absent
    rw [if_neg absent] at registered
    exact registered

/-! ### What a lookup comes to, and what it leaves -/

variable {result : EStateM.Result Abort BeanRegistry (Option Descriptor)}

theorem LooksUp.grows (h : LooksUp decls type r result) : r.Grows (aftermath result) := by
  cases h with
  | missing | known => exact .refl r
  | described registered describes => exact .of_set (by rw [built?_of_get? registered]; rfl) rfl
  | panicked reason registered fails => exact ⟨fun _ => id, fun _ _ => id⟩

/-- What is found is there from then on. -/
theorem LooksUp.built (h : LooksUp decls type r result) {d : Descriptor}
    (found : answer result = .ok (some d)) : (aftermath result).built? type = some d := by
  cases h with
  | missing registered => cases found
  | known built =>
    cases found
    exact built
  | described registered describes =>
    cases found
    simp only [built?, aftermath, Table.get?_set, if_true, Option.bind_some, Registration.built?]
  | panicked reason registered fails => cases found

/-- Nothing is found for types that are not registered. -/
theorem LooksUp.answer_eq_none_iff (h : LooksUp decls type r result) :
    answer result = .ok none ↔ r.contains type = false := by
  cases h with
  | missing registered => exact ⟨fun _ => contains_eq_false_iff.2 registered, fun _ => rfl⟩
  | known built =>
    exact ⟨nofun, fun absent => absurd (contains_of_built built) (Bool.eq_false_iff.1 absent)⟩
  | described registered | panicked reason registered =>
    exact ⟨nofun, fun absent => absurd (contains_of_get? registered) (Bool.eq_false_iff.1 absent)⟩

/-- What is found is there already, or is what the declaration of the type describes. -/
theorem LooksUp.exists_answer_iff (h : LooksUp decls type r result) :
    (∃ d, answer result = .ok (some d)) ↔ r.contains type = true ∧
      ((∃ d, r.built? type = some d) ∨ ∃ d, decls.describe type = .ok (.ok d)) := by
  cases h with
  | missing registered =>
    refine ⟨nofun, fun h => ?_⟩
    obtain ⟨contained, -⟩ := h
    cases (contains_eq_false_iff.2 registered).symm.trans contained
  | known built => exact ⟨fun _ => ⟨contains_of_built built, .inl ⟨_, built⟩⟩, fun _ => ⟨_, rfl⟩⟩
  | described registered describes =>
    exact ⟨fun _ => ⟨contains_of_get? registered, .inr ⟨_, describes⟩⟩, fun _ => ⟨_, rfl⟩⟩
  | panicked reason registered fails =>
    refine ⟨nofun, fun h => ?_⟩
    obtain ⟨-, possible⟩ := h
    rcases possible with ⟨d, built⟩ | ⟨d, describes⟩
    · rw [built?_of_get? registered] at built
      cases built
    · exact absurd describes (fails d)

/-- What is found first is what the declaration of the type describes by then. -/
theorem LooksUp.answer_of_describes (h : LooksUp decls type r result) {path : String}
    (registered : r.registrations.get? type = some (.deferred path none)) {d : Descriptor}
    (describes : decls.describe type = .ok (.ok d)) : answer result = .ok (some d) := by
  cases h with
  | missing missing => cases missing.symm.trans registered
  | known built =>
    rw [built?_of_get? registered] at built
    cases built
  | described _ describes' =>
    cases describes.symm.trans describes'
    rfl
  | panicked reason _ fails => exact absurd describes (fails d)

/-- Where nothing is found, nothing is kept. -/
theorem LooksUp.unchanged (h : LooksUp decls type r result)
    (nothing : ∀ d, answer result ≠ .ok (some d)) :
    ∃ builds, aftermath result = { r with builds } := by
  cases h with
  | missing => exact ⟨_, rfl⟩
  | known | described => exact absurd rfl (nothing _)
  | panicked => exact ⟨_, rfl⟩

/-- A descriptor that is there is what is found, and no declaration is called. -/
theorem LooksUp.of_built (h : LooksUp decls type r result) {d : Descriptor}
    (built : r.built? type = some d) : result = .ok (some d) r := by
  cases h with
  | missing registered =>
    rw [built?, registered] at built
    cases built
  | known built' => rw [Option.some.inj (built'.symm.trans built)]
  | described registered describes | panicked reason registered fails =>
    rw [built?_of_get? registered] at built
    cases built

end BeanRegistry

/-! ### Requests -/

/-- Where a row that ends in `a` can be split: at its end, or in front of it. -/
theorem concat_eq_split_iff {α : Type} {l earlier later : List α} {a x : α} :
    l ++ [a] = earlier ++ x :: later ↔
      later = [] ∧ earlier = l ∧ x = a ∨
        ∃ front, later = front ++ [a] ∧ l = earlier ++ x :: front := by
  constructor
  · intro split
    rcases later.eq_nil_or_concat with rfl | ⟨front, b, rfl⟩
    · obtain ⟨rfl, ⟨⟩⟩ := List.append_inj' split rfl
      exact .inl ⟨rfl, rfl, rfl⟩
    · have behind : l ++ [a] = (earlier ++ x :: front) ++ [b] := by simpa using split
      obtain ⟨rfl, ⟨⟩⟩ := List.append_inj' behind rfl
      exact .inr ⟨front, List.concat_eq_append, rfl⟩
  · rintro (⟨rfl, rfl, rfl⟩ | ⟨front, rfl, rfl⟩)
    · rfl
    · simp

namespace Beans

/-- What a registry and its writers may be asked, with the declarations in force. -/
inductive Request where
  /-- To register a type. -/
  | register (decls : Declarations) (type : TypeId)
  /-- To register a type with its descriptor. -/
  | insert (d : Descriptor)
  /-- To register the types that ask for it. -/
  | autoRegister (decls : Declarations) (asking : List TypeId)
  /-- For the descriptor of a type. -/
  | descriptor (decls : Declarations) (type : TypeId)
  /-- For the descriptor of the type under a type path. -/
  | descriptorAt (decls : Declarations) (path : String)
  /-- For the writer of a type. -/
  | writer (decls : Declarations) (type : TypeId)
  /-- Whether there is a writer of a type. -/
  | hasWriter (type : TypeId)
  /-- How many writers there are. -/
  | countWriters

/-- What is replied to a request. -/
inductive Reply where
  | flag (b : Bool)
  | found (d : Option Descriptor)
  | count (n : Nat)
  /-- The request ended in a panic. -/
  | panicked

/-- The reply to a lookup that comes to this answer. -/
def Reply.ofAnswer : Except Abort (Option Descriptor) → Reply
  | .ok d => .found d
  | .error _ => .panicked

theorem Reply.ofAnswer_eq_found_iff {a : Except Abort (Option Descriptor)}
    {d : Option Descriptor} : Reply.ofAnswer a = .found d ↔ a = .ok d := by
  rcases a with reason | d' <;> simp [ofAnswer]

namespace Request

/-- Looks a descriptor up. -/
def ask (query : EStateM Abort Beans (Option Descriptor)) (b : Beans) : Reply × Beans :=
  (.ofAnswer (answer (query b)), aftermath (query b))

/-- What is replied to a request, and what it leaves. -/
def perform : Request → Beans → Reply × Beans
  | .register decls type, b =>
    let (added, registry) := b.registry.register decls type
    (.flag added, { b with registry })
  | .insert d, b =>
    let (added, registry) := b.registry.insert d
    (.flag added, { b with registry })
  | .autoRegister decls asking, b =>
    let (works, registry) := b.registry.autoRegister decls asking
    (.flag works, { b with registry })
  | .descriptor decls type, b => ask (inRegistry (BeanRegistry.get? decls type)) b
  | .descriptorAt decls path, b => ask (inRegistry (BeanRegistry.getWithPath? decls path)) b
  | .writer decls type, b => ask (writer? decls type) b
  | .hasWriter type, b => (.flag (b.writers.contains type), b)
  | .countWriters, b => (.count b.writers.size, b)

/-- The type that is looked up by a request, with the declarations in force. -/
def lookup? (b : Beans) : Request → Option (Declarations × TypeId)
  | .descriptor decls type | .writer decls type => some (decls, type)
  | .descriptorAt decls path => (b.registry.typeOf? path).map (decls, ·)
  | _ => none

end Request

/-- What is left after requests were made, one after the other, of a registry that was empty. -/
def after (qs : List Request) : Beans := qs.foldl (fun b q => (q.perform b).2) {}

theorem after_concat (qs : List Request) (q : Request) :
    after (qs ++ [q]) = (q.perform (after qs)).2 := List.foldl_append

end Beans

end BeanStream
