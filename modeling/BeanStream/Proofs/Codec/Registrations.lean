import BeanStream.Proofs.Codec.Tags
import Mathlib.Data.Finset.Card

/-!
# Tags count the types

Types get codecs in any order, and some of them get codecs again. What counts for the tags is the
order in which types were given a codec **first** (`List.eraseDups` of the types): the type in
place `i` of that order has the tag `Tag.firstCodec + i`, whatever comes later. This is
`CodecRegistry.Counts`, which each registration keeps (`Counts.register`).

Main fact: after any registrations, in an empty registry or in that of the library, the tags are
those numbers without gaps, each tag leads to the one type that has it, and each type has the codec
that it was given last (`CodecRegistry.wellTagged_registerAll`).
-/

namespace BeanStream

namespace CodecRegistry

variable {r : CodecRegistry} {types : List TypeId} {type : TypeId} {e : Entry}

/-- Gives types codecs, one after another. -/
def registerAll (r : CodecRegistry) (regs : List (TypeId × Codec)) : CodecRegistry :=
  regs.foldl (fun r reg => (r.register reg.1 reg.2).2) r

/-- What the library registers. -/
def library : List (TypeId × Codec) :=
  ScalarType.all.map fun t => (.scalar t, Value.scalarScript t)

@[simp] theorem registerAll_nil (r : CodecRegistry) : r.registerAll [] = r := rfl

@[simp] theorem registerAll_cons (r : CodecRegistry) (reg : TypeId × Codec)
    (regs : List (TypeId × Codec)) :
    r.registerAll (reg :: regs) = (r.register reg.1 reg.2).2.registerAll regs := rfl

theorem registerAll_append (r : CodecRegistry) (regs later : List (TypeId × Codec)) :
    r.registerAll (regs ++ later) = (r.registerAll regs).registerAll later :=
  List.foldl_append

/-- The registry of the library is made by registering. -/
theorem builtin_eq_registerAll : builtin = empty.registerAll library := by
  rw [registerAll, library, List.foldl_map]
  rfl

theorem numbered_registerAll (numbered : r.Numbered) (regs : List (TypeId × Codec)) :
    (r.registerAll regs).Numbered := by
  induction regs generalizing r with
  | nil => exact numbered
  | cons reg regs ih => exact ih (numbered.register reg.1 reg.2)

/-! ### What registering leaves of an entry -/

/-- A type that has a codec is given another one: only the codec of its entry changes. -/
theorem get?_register_of_entry (given : r.get? type = some e) (codec : Codec) (type' : TypeId) :
    (r.register type codec).2.get? type' =
      if type' = type then some { e with codec } else r.get? type' := by
  rw [get?_register, given]
  rfl

/-- A registered type keeps its tag. -/
theorem exists_get?_registerAll (given : r.get? type = some e) (later : List (TypeId × Codec)) :
    ∃ e', (r.registerAll later).get? type = some e' ∧ e'.tag = e.tag := by
  induction later generalizing r e with
  | nil => exact ⟨e, given, rfl⟩
  | cons reg later ih =>
    by_cases same : type = reg.1
    · subst same
      have again : (r.register reg.1 reg.2).2.get? reg.1 = some { e with codec := reg.2 } := by
        rw [get?_register_of_entry given, if_pos rfl]
      obtain ⟨e', kept, same⟩ := ih again
      exact ⟨e', kept, same⟩
    · have other : (r.register reg.1 reg.2).2.get? type = some e := by
        rw [get?_register, if_neg same, given]
      exact ih other

/-- The entry of a type changes only where this type is given a codec. -/
theorem get?_registerAll_of_notMem (r : CodecRegistry) {later : List (TypeId × Codec)}
    (others : type ∉ later.map Prod.fst) : (r.registerAll later).get? type = r.get? type := by
  induction later generalizing r with
  | nil => rfl
  | cons reg later ih =>
    rw [List.map_cons, List.mem_cons, not_or] at others
    have kept : (r.register reg.1 reg.2).2.get? type = r.get? type := by
      rw [get?_register, if_neg others.1]
    exact (ih (r.register reg.1 reg.2).2 others.2).trans kept

/-! ### The order of first registrations -/

/-- A type that is listed already adds nothing to the types without repetition, and another one is
added at the end. -/
theorem eraseDups_concat (types : List TypeId) (type : TypeId) :
    (types ++ [type]).eraseDups =
      if type ∈ types then types.eraseDups else types.eraseDups ++ [type] := by
  rw [List.eraseDups_append]
  split <;> rename_i listed <;> simp [List.removeAll, listed, List.eraseDups_cons]

/-- The types are numbered in the order in which they were listed first. -/
structure Counts (r : CodecRegistry) (types : List TypeId) : Prop where
  entries : r.entries.entries.map (fun e => (e.1, e.2.tag)) =
    types.eraseDups.zipIdx Tag.firstCodec
  next : r.nextTag = Tag.firstCodec + types.eraseDups.length

namespace Counts

/-- The types with a codec, in the order of their tags. -/
theorem keys_eq (h : r.Counts types) : r.entries.keys = types.eraseDups := by
  have firsts := congrArg (List.map Prod.fst) h.entries
  rw [List.map_map, List.zipIdx_map_fst] at firsts
  exact firsts

theorem size_eq (h : r.Counts types) : r.size = types.eraseDups.length := by
  rw [← h.keys_eq]
  exact (List.length_map _).symm

theorem contains_iff (h : r.Counts types) (type : TypeId) :
    r.contains type = true ↔ type ∈ types := by
  rw [contains, Table.contains_iff_mem_keys, h.keys_eq, List.mem_eraseDups]

theorem get?_eq_none_iff (h : r.Counts types) (type : TypeId) :
    r.get? type = none ↔ type ∉ types := by
  rw [get?, Table.get?_eq_none_iff, h.keys_eq, List.mem_eraseDups]

/-- The tag of a type is its place in the order. -/
theorem tag_iff (h : r.Counts types) (type : TypeId) (tag : Nat) :
    (∃ e, r.get? type = some e ∧ e.tag = tag) ↔
      Tag.firstCodec ≤ tag ∧ types.eraseDups[tag - Tag.firstCodec]? = some type := by
  rw [← List.mk_mem_zipIdx_iff_le_and_getElem?_sub, ← h.entries]
  simp only [List.mem_map, Prod.exists, Prod.mk.injEq, Table.mem_entries_iff]
  constructor
  · rintro ⟨e, given, same⟩
    exact ⟨type, e, given, rfl, same⟩
  · rintro ⟨other, e, given, rfl, same⟩
    exact ⟨e, given, same⟩

/-- A registration keeps the types numbered. -/
theorem register (h : r.Counts types) (type : TypeId) (codec : Codec) :
    (r.register type codec).2.Counts (types ++ [type]) := by
  rcases known : r.get? type with _ | e
  · have new : type ∉ types := (h.get?_eq_none_iff type).1 known
    constructor
    · rw [eraseDups_concat, if_neg new, List.zipIdx_append, ← h.entries]
      simp only [CodecRegistry.register, known]
      rw [Table.entries_set_of_get?_eq_none known, List.map_append, h.next]
      rfl
    · rw [eraseDups_concat, if_neg new, List.length_append]
      simp only [CodecRegistry.register, known]
      rw [h.next]
      rfl
  · have listed : type ∈ types := (h.contains_iff type).1 (Option.isSome_iff_exists.2 ⟨e, known⟩)
    constructor
    · rw [eraseDups_concat, if_pos listed, ← h.entries]
      simp only [CodecRegistry.register, known]
      exact Table.map_entries_set known Entry.tag rfl
    · rw [eraseDups_concat, if_pos listed, ← h.next]
      simp only [CodecRegistry.register, known]

theorem registerAll (h : r.Counts types) (regs : List (TypeId × Codec)) :
    (r.registerAll regs).Counts (types ++ regs.map Prod.fst) := by
  induction regs generalizing r types with
  | nil => simpa using h
  | cons reg regs ih => simpa using ih (h.register reg.1 reg.2)

/-- How many types there are, without repetition. -/
theorem card_eq (h : r.Counts types) : types.toFinset.card = types.eraseDups.length := by
  have once : types.eraseDups.Nodup := h.keys_eq ▸ r.entries.nodup
  have same : types.toFinset = types.eraseDups.toFinset := by
    ext type
    rw [List.mem_toFinset, List.mem_toFinset, List.mem_eraseDups]
  rw [same, List.toFinset_card_of_nodup once]

end Counts

theorem counts_registerAll_empty (regs : List (TypeId × Codec)) :
    (empty.registerAll regs).Counts (regs.map Prod.fst) := by
  have start : empty.Counts [] := ⟨rfl, rfl⟩
  exact start.registerAll regs

/-! ### What is certain of tags -/

/-- What is certain of a registry after these registrations. -/
structure WellTagged (r : CodecRegistry) (regs : List (TypeId × Codec)) : Prop where
  /-- The types with a codec are those that were given one, -/
  registered (type : TypeId) : r.contains type = true ↔ type ∈ regs.map Prod.fst
  /-- and each has the one that it was given last. -/
  latest {earlier later : List (TypeId × Codec)} {type : TypeId} {codec : Codec}
    (split : regs = earlier ++ (type, codec) :: later) (last : type ∉ later.map Prod.fst) :
    ∃ e, r.get? type = some e ∧ e.type = type ∧ e.codec = codec
  /-- The tag of a type counts the types that were given a codec before it was. -/
  counted {earlier later : List (TypeId × Codec)} {type : TypeId} {codec : Codec}
    (split : regs = earlier ++ (type, codec) :: later) (first : type ∉ earlier.map Prod.fst) :
    ∃ e, r.get? type = some e ∧
      e.tag = Tag.firstCodec + (earlier.map Prod.fst).toFinset.card
  /-- No two types share a tag, -/
  distinct {type type' : TypeId} {e e' : Entry} (given : r.get? type = some e)
    (given' : r.get? type' = some e') : e.tag = e'.tag → type = type'
  /-- none has one of those that need no codec, -/
  unreserved {type : TypeId} {e : Entry} (given : r.get? type = some e) :
    e.tag ≠ Tag.null ∧ e.tag ≠ Tag.bean ∧ e.tag ≠ Tag.sequence
  /-- and they are without gaps. -/
  dense (tag : Nat) : (∃ type e, r.get? type = some e ∧ e.tag = tag) ↔
    Tag.firstCodec ≤ tag ∧ tag < Tag.firstCodec + r.size
  size : r.size = (regs.map Prod.fst).toFinset.card
  /-- Tags are of 32 bits, and so is the next one, as long as there are not too many types. -/
  bounded (few : (regs.map Prod.fst).toFinset.card < UInt32.size - 8) :
    r.nextTag < UInt32.size ∧ ∀ type e, r.get? type = some e → e.tag < UInt32.size
  /-- Whatever is registered later, a type keeps its tag. -/
  kept (later : List (TypeId × Codec)) {type : TypeId} {e : Entry}
    (given : r.get? type = some e) :
    ∃ e', (r.registerAll later).get? type = some e' ∧ e'.tag = e.tag
  /-- A type that is given a codec first gets the next number, and others are as they were. -/
  fresh {type : TypeId} (absent : r.get? type = none) (codec : Codec) :
    (r.register type codec).1 = Tag.firstCodec + r.size ∧
      ∀ type', (r.register type codec).2.get? type' =
        if type' = type then some { tag := Tag.firstCodec + r.size, type, codec }
        else r.get? type'
  /-- A type that is given a codec again has its tag already, and only its codec changes. -/
  again {type : TypeId} {e : Entry} (given : r.get? type = some e) (codec : Codec) :
    (r.register type codec).1 = e.tag ∧ (r.register type codec).2.nextTag = r.nextTag ∧
      (r.register type codec).2.entries.keys = r.entries.keys ∧
      ∀ type', (r.register type codec).2.get? type' =
        if type' = type then some { e with codec } else r.get? type'
  /-- A tag leads to the entry of the type that has it, -/
  withTag (tag : Nat) (e : Entry) :
    r.withTag? tag = some e ↔ r.get? e.type = some e ∧ e.tag = tag
  /-- no other tag leads anywhere, -/
  withoutTag (tag : Nat) :
    r.withTag? tag = none ↔ tag < Tag.firstCodec ∨ Tag.firstCodec + r.size ≤ tag
  /-- and the order in which the entries are looked through does not matter. -/
  anyOrder {listed : List Entry} (all : listed.Perm r.entries.values) (tag : Nat) :
    listed.find? (·.tag = tag) = r.withTag? tag

/-- Tags are the numbers of the types without gaps. -/
theorem Counts.dense (h : r.Counts types) (tag : Nat) :
    (∃ type e, r.get? type = some e ∧ e.tag = tag) ↔
      Tag.firstCodec ≤ tag ∧ tag < Tag.firstCodec + r.size := by
  simp only [h.tag_iff, exists_and_left, h.size_eq, ← Option.isSome_iff_exists]
  refine and_congr_right fun least => ?_
  rw [Option.isSome_iff_ne_none, Ne, List.getElem?_eq_none_iff]
  omega

/-- A tag leads nowhere if it is not the number of a type. -/
theorem Counts.withTag?_eq_none_iff (h : r.Counts types) (tag : Nat) :
    r.withTag? tag = none ↔ tag < Tag.firstCodec ∨ Tag.firstCodec + r.size ≤ tag := by
  have unused : r.withTag? tag = none ↔ ¬ ∃ type e, r.get? type = some e ∧ e.tag = tag := by
    simp only [withTag?, List.find?_eq_none, decide_eq_true_eq, Table.mem_values_iff]
    constructor
    · rintro others ⟨type, e, given, same⟩
      exact others e ⟨type, given⟩ same
    · rintro unused e ⟨type, given⟩ same
      exact unused ⟨type, e, given, same⟩
  rw [unused, h.dense]
  omega

/-- A type has the codec that it was given last. -/
theorem exists_get?_of_last (numbered : r.Numbered) (type : TypeId) (codec : Codec)
    {later : List (TypeId × Codec)} (last : type ∉ later.map Prod.fst) :
    ∃ e, (r.registerAll ((type, codec) :: later)).get? type = some e ∧ e.type = type ∧
      e.codec = codec := by
  have given := get?_register r type codec type
  rw [if_pos rfl] at given
  refine ⟨_, (get?_registerAll_of_notMem _ last).trans given,
    (numbered.register type codec).keyed given, ?_⟩
  rcases r.get? type with _ | e <;> rfl

/-- The tag of a type is the next one at the time when it is given a codec first. -/
theorem Counts.exists_get?_of_first (h : r.Counts types) (codec : Codec)
    (first : type ∉ types) (later : List (TypeId × Codec)) :
    ∃ e, (r.registerAll ((type, codec) :: later)).get? type = some e ∧
      e.tag = Tag.firstCodec + types.toFinset.card := by
  have given : (r.register type codec).2.get? type = some { tag := r.nextTag, type, codec } := by
    rw [get?_register, if_pos rfl, (h.get?_eq_none_iff type).2 first]
    rfl
  obtain ⟨e, kept, same⟩ := exists_get?_registerAll given later
  exact ⟨e, kept, by rw [same, h.next, h.card_eq]⟩

/-- What is certain of tags after registrations in an empty registry. -/
theorem wellTagged_registerAll_empty (regs : List (TypeId × Codec)) :
    (empty.registerAll regs).WellTagged regs := by
  have counts := counts_registerAll_empty regs
  have numbered := numbered_registerAll numbered_empty regs
  have size : (empty.registerAll regs).size = (regs.map Prod.fst).toFinset.card := by
    rw [counts.size_eq, counts.card_eq]
  have next : (empty.registerAll regs).nextTag =
      Tag.firstCodec + (empty.registerAll regs).size := by
    rw [counts.next, counts.size_eq]
  constructor
  case registered => exact counts.contains_iff
  case latest =>
    rintro earlier later type codec rfl last
    rw [registerAll_append]
    exact exists_get?_of_last (numbered_registerAll numbered_empty earlier) type codec last
  case counted =>
    rintro earlier later type codec rfl first
    rw [registerAll_append]
    exact (counts_registerAll_empty earlier).exists_get?_of_first codec first later
  case distinct => exact numbered.distinct
  case unreserved =>
    intro type e given
    have range := numbered.range given
    simp only [Tag.firstCodec] at range
    simp only [Tag.null, Tag.bean, Tag.sequence]
    omega
  case dense => exact counts.dense
  case size => exact size
  case bounded =>
    intro few
    have last : (empty.registerAll regs).nextTag < UInt32.size := by
      rw [next, size]
      simp only [Tag.firstCodec, UInt32.size] at few ⊢
      omega
    exact ⟨last, fun type e given => (numbered.range given).2.trans last⟩
  case kept => exact fun later type e given => exists_get?_registerAll given later
  case fresh =>
    intro type absent codec
    rw [register_tag_of_none absent, ← next]
    refine ⟨rfl, fun type' => ?_⟩
    rw [get?_register, absent]
    rfl
  case again =>
    intro type e given codec
    have listed : type ∈ regs.map Prod.fst :=
      (counts.contains_iff type).1 (Option.isSome_iff_exists.2 ⟨e, given⟩)
    have again := counts.register type codec
    refine ⟨register_tag_of_entry given codec, ?_, ?_, get?_register_of_entry given codec⟩
    · rw [again.next, eraseDups_concat, if_pos listed, counts.next]
    · rw [again.keys_eq, eraseDups_concat, if_pos listed, counts.keys_eq]
  case withTag => exact fun tag e => numbered.find?_eq_some_iff (.refl _)
  case withoutTag => exact counts.withTag?_eq_none_iff
  case anyOrder =>
    intro listed all tag
    refine Option.ext fun e => ?_
    rw [numbered.find?_eq_some_iff all, withTag?, numbered.find?_eq_some_iff (.refl _)]

/-- The tags of the library are those of its types in their order. -/
theorem tag_builtin (t : ScalarType) :
    (builtin.get? (.scalar t)).map Entry.tag = some (Tag.firstCodec + ScalarType.all.idxOf t) := by
  cases t with
  | int k => cases k <;> decide
  | unit | bool | char | f32 | f64 | string | str | cow | path => decide

/-- Whatever is registered, in an empty registry or in that of the library, tags count the types,
and those of the library are as they were. -/
theorem wellTagged_registerAll (regs : List (TypeId × Codec)) :
    (empty.registerAll regs).WellTagged regs ∧
      (builtin.registerAll regs).WellTagged (library ++ regs) ∧
      ∀ t : ScalarType, ((builtin.registerAll regs).get? (.scalar t)).map Entry.tag =
        some (Tag.firstCodec + ScalarType.all.idxOf t) := by
  refine ⟨wellTagged_registerAll_empty regs, ?_, fun t => ?_⟩
  · rw [builtin_eq_registerAll, ← registerAll_append]
    exact wellTagged_registerAll_empty (library ++ regs)
  · obtain ⟨e, given, tag⟩ := Option.map_eq_some_iff.1 (tag_builtin t)
    obtain ⟨e', kept, same⟩ := exists_get?_registerAll given regs
    rw [kept, Option.map_some, same, tag]

end CodecRegistry

end BeanStream
