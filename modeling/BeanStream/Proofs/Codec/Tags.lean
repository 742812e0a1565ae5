import BeanStream.Codec.Registry
import BeanStream.Proofs.Table

/-!
# Tags

In a registry that is `Numbered`, an entry is found under its own type, the tags in use lie
between the first tag of a codec and the next one, and **no two types share a tag**: the tag of
an entry tells which entry it is (`Numbered.withTag?_tag`).

Registering keeps a registry numbered (`Numbered.register`), so the registry that the library
brings is (`numbered_builtin`). Its entries are the codecs of the scalar types
(`exists_scalar_of_builtin`).
-/

namespace BeanStream

namespace CodecRegistry

/-- Entries are found under their types, and types are numbered. -/
structure Numbered (r : CodecRegistry) : Prop where
  /-- An entry is found under its own type. -/
  keyed : ∀ {type e}, r.get? type = some e → e.type = type
  /-- The tags in use lie below the next one. -/
  range : ∀ {type e}, r.get? type = some e → Tag.firstCodec ≤ e.tag ∧ e.tag < r.nextTag
  /-- No two types share a tag. -/
  distinct : ∀ {type type' e e'}, r.get? type = some e → r.get? type' = some e' →
    e.tag = e'.tag → type = type'
  /-- The next tag is one that codecs may have. -/
  next : Tag.firstCodec ≤ r.nextTag

/-- Of an empty registry there is nothing to say. -/
theorem numbered_empty : Numbered empty where
  keyed h := nomatch h
  range h := nomatch h
  distinct h := nomatch h
  next := Nat.le_refl _

/-- What is found after a type got a codec. -/
theorem get?_register (r : CodecRegistry) (type : TypeId) (codec : Codec) (type' : TypeId) :
    (r.register type codec).2.get? type' =
      if type' = type then
        some (((r.get? type).map fun e => { e with codec }).getD { tag := r.nextTag, type, codec })
      else r.get? type' := by
  rcases h : r.get? type with _ | e <;> simp only [register, h]
  · exact Table.get?_set _ _ _ _
  · exact Table.get?_set _ _ _ _

/-- The codec of a type is the one that was given last, or it was there before. -/
theorem codec_of_get?_register {r : CodecRegistry} {type type' : TypeId} {codec : Codec} {e : Entry}
    (h : (r.register type codec).2.get? type' = some e) :
    e.codec = codec ∨ r.get? type' = some e := by
  rw [get?_register] at h
  split at h
  · left
    rcases known : r.get? type with _ | e'
    · rw [known] at h
      cases h
      rfl
    · rw [known] at h
      cases h
      rfl
  · exact .inr h

/-- A type that gets a codec keeps the registry numbered. -/
theorem Numbered.register {r : CodecRegistry} (h : r.Numbered) (type : TypeId) (codec : Codec) :
    (r.register type codec).2.Numbered := by
  -- the tag of `type` is its own, or one that nothing has
  have tag_of {type' : TypeId} {e : Entry} (he : (r.register type codec).2.get? type' = some e) :
      (∃ e', r.get? type' = some e' ∧ e.tag = e'.tag ∧ e.type = e'.type) ∨
        (type' = type ∧ r.get? type = none ∧ e.tag = r.nextTag ∧ e.type = type) := by
    rw [get?_register] at he
    split at he
    · rename_i same
      rcases known : r.get? type with _ | e'
      · rw [known] at he
        cases he
        exact .inr ⟨same, rfl, rfl, rfl⟩
      · rw [known] at he
        cases he
        exact .inl ⟨e', same ▸ known, rfl, rfl⟩
    · exact .inl ⟨e, he, rfl, rfl⟩
  have next_eq : (r.register type codec).2.nextTag =
      if (r.get? type).isSome then r.nextTag else r.nextTag + 1 := by
    rcases known : r.get? type with _ | e' <;> simp [CodecRegistry.register, known]
  have next_le : r.nextTag ≤ (r.register type codec).2.nextTag := by
    rw [next_eq]
    split <;> omega
  refine ⟨fun {type' e} he => ?_, fun {type' e} he => ?_, fun {type₁ type₂ e₁ e₂} h₁ h₂ same => ?_,
    Nat.le_trans h.next next_le⟩
  · rcases tag_of he with ⟨e', he', -, ht⟩ | ⟨rfl, -, -, ht⟩
    · rw [ht, h.keyed he']
    · exact ht
  · rcases tag_of he with ⟨e', he', tag, -⟩ | ⟨-, new, tag, -⟩
    · have range := h.range he'
      omega
    · rw [new] at next_eq
      have first := h.next
      simp only [Option.isSome_none, Bool.false_eq_true, if_false] at next_eq
      omega
  · rcases tag_of h₁ with ⟨e₁', he₁, tag₁, -⟩ | ⟨type₁, new₁, tag₁, -⟩ <;>
      rcases tag_of h₂ with ⟨e₂', he₂, tag₂, -⟩ | ⟨type₂, new₂, tag₂, -⟩
    · exact h.distinct he₁ he₂ (tag₁ ▸ tag₂ ▸ same)
    · have range := h.range he₁
      omega
    · have range := h.range he₂
      omega
    · rw [type₁, type₂]

/-- A tag leads to the entry that has it, in whatever order the entries are looked through. -/
theorem Numbered.find?_eq_some_iff {r : CodecRegistry} (h : r.Numbered) {listed : List Entry}
    (all : listed.Perm r.entries.values) {tag : Nat} {e : Entry} :
    listed.find? (·.tag = tag) = some e ↔ r.get? e.type = some e ∧ e.tag = tag := by
  have mem_iff {e : Entry} : e ∈ listed ↔ ∃ type, r.get? type = some e :=
    all.mem_iff.trans Table.mem_values_iff
  constructor
  · intro found
    obtain ⟨type, given⟩ := mem_iff.1 (List.mem_of_find?_eq_some found)
    have same : e.tag = tag := by simpa using List.find?_some found
    exact ⟨h.keyed given ▸ given, same⟩
  · rintro ⟨given, rfl⟩
    rcases found : listed.find? (·.tag = e.tag) with _ | e'
    · exact absurd (decide_eq_true rfl) (List.find?_eq_none.1 found e (mem_iff.2 ⟨_, given⟩))
    · have same : e'.tag = e.tag := by simpa using List.find?_some found
      obtain ⟨type, given'⟩ := mem_iff.1 (List.mem_of_find?_eq_some found)
      obtain rfl : type = e.type := h.distinct given' given same
      exact found.trans (given'.symm.trans given)

/-- The tag of an entry tells which entry it is. -/
theorem Numbered.withTag?_tag {r : CodecRegistry} (h : r.Numbered) {type : TypeId} {e : Entry}
    (he : r.get? type = some e) : r.withTag? e.tag = some e :=
  (h.find?_eq_some_iff (.refl _)).2 ⟨(h.keyed he).symm ▸ he, rfl⟩

/-! ### The registry of the library -/

/-- The entry of a type is the codec of a scalar type. -/
def Scalars (r : CodecRegistry) : Prop :=
  ∀ {type e}, r.get? type = some e →
    ∃ t, type = .scalar t ∧ e.type = .scalar t ∧ e.codec = Value.scalarScript t

private theorem register_scalar {r : CodecRegistry} (numbered : r.Numbered) (h : r.Scalars)
    (t : ScalarType) : (r.register (.scalar t) (Value.scalarScript t)).2.Scalars := by
  intro type e he
  rw [get?_register] at he
  split at he
  · rename_i same
    rcases known : r.get? (.scalar t) with _ | e'
    · rw [known] at he
      cases he
      exact ⟨t, same, rfl, rfl⟩
    · have type_eq : e'.type = .scalar t := numbered.keyed known
      rw [known] at he
      cases he
      exact ⟨t, same, type_eq, rfl⟩
  · exact h he

private theorem foldl_register (ts : List ScalarType) {r : CodecRegistry} (numbered : r.Numbered)
    (scalars : r.Scalars) :
    let r' := ts.foldl (fun r t => (r.register (.scalar t) (Value.scalarScript t)).2) r
    r'.Numbered ∧ r'.Scalars := by
  induction ts generalizing r with
  | nil => exact ⟨numbered, scalars⟩
  | cons t ts ih => exact ih (numbered.register _ _) (register_scalar numbered scalars t)

/-- The codecs of the library are numbered. -/
theorem numbered_builtin : builtin.Numbered :=
  (foldl_register ScalarType.all numbered_empty nofun).1

/-- The codecs of the library are those of the scalar types. -/
theorem exists_scalar_of_builtin {type : TypeId} {e : Entry} (h : builtin.get? type = some e) :
    ∃ t, type = .scalar t ∧ e.type = .scalar t ∧ e.codec = Value.scalarScript t :=
  (foldl_register ScalarType.all numbered_empty nofun).2 h

/-- The tags of the library take one byte. -/
theorem nextTag_builtin : builtin.nextTag = 29 := by decide

end CodecRegistry

end BeanStream
