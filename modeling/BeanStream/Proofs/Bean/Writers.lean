import BeanStream.Bean.WriterCache
import BeanStream.Proofs.Result

/-!
# Looking up a writer changes no answer

A lookup may build a descriptor, and may keep a writer that was made; a lookup that ends in a panic
keeps neither. What is kept is **what would be made again**, so every later lookup answers what it
would have answered before: `Beans.SameWriters` relates what is there before a lookup to what is
left by it, be it one for a writer (`sameWriters_writer?`) or one for a descriptor, past the
writers (`sameWriters_descriptor`).
-/

namespace BeanStream

namespace BeanRegistry

variable {decls : Declarations} {type : TypeId} {r r' : BeanRegistry}

/-- What is answered for a type depends on its registration only. -/
theorem answer_get?_congr (h : r.registrations.get? type = r'.registrations.get? type) :
    answer (get? decls type r) = answer (get? decls type r') := by
  rw [get?, get?, h]
  rcases r'.registrations.get? type with _ | ⟨path, _ | d⟩ | d
  · rfl
  · rcases decls.describe type with reason | e | d <;> rfl
  · rfl
  · rfl

/-- A lookup changes no answer: a descriptor that it keeps is what its type describes. -/
theorem answer_get?_aftermath (type other : TypeId) (r : BeanRegistry) :
    answer (get? decls other (aftermath (get? decls type r))) = answer (get? decls other r) := by
  rcases registered : r.registrations.get? type with _ | ⟨path, _ | d⟩ | d
  · have kept : aftermath (get? decls type r) = r := by simp only [get?, registered, aftermath]
    rw [kept]
  · rcases described : decls.describe type with reason | e | d
    · refine answer_get?_congr ?_
      simp only [get?, registered, described, aftermath]
    · refine answer_get?_congr ?_
      simp only [get?, registered, described, aftermath]
    · by_cases same : other = type
      · subst same
        simp only [get?, registered, described, aftermath, answer, Table.get?_set, if_true]
      · refine answer_get?_congr ?_
        simp only [get?, registered, described, aftermath, Table.get?_set, if_neg same]
  · have kept : aftermath (get? decls type r) = r := by simp only [get?, registered, aftermath]
    rw [kept]
  · have kept : aftermath (get? decls type r) = r := by simp only [get?, registered, aftermath]
    rw [kept]

end BeanRegistry

namespace Beans

variable {decls : Declarations} {b b' b'' : Beans}

/-- What is answered is the writer that was made, or what the registry answers. -/
theorem answer_writer? (decls : Declarations) (type : TypeId) (b : Beans) :
    answer (writer? decls type b) =
      match b.writers.get? type with
      | some d => .ok (some d)
      | none => answer (BeanRegistry.get? decls type b.registry) := by
  rcases cached : b.writers.get? type with _ | d
  · rw [writer?_of_not_cached cached]
    rcases BeanRegistry.get? decls type b.registry with ⟨_ | d, registry⟩ | ⟨reason, registry⟩ <;>
      rfl
  · rw [writer?_of_cached cached]
    rfl

/-- The same writers are found. -/
def SameWriters (decls : Declarations) (b b' : Beans) : Prop :=
  ∀ type, answer (writer? decls type b) = answer (writer? decls type b')

namespace SameWriters

theorem refl (b : Beans) : SameWriters decls b b := fun _ => rfl

theorem trans (h : SameWriters decls b b') (h' : SameWriters decls b' b'') :
    SameWriters decls b b'' := fun type => (h type).trans (h' type)

end SameWriters

/-- The registry may have kept a descriptor. -/
theorem sameWriters_of_registry (type : TypeId) (b : Beans) :
    SameWriters decls b
      { b with registry := aftermath (BeanRegistry.get? decls type b.registry) } := by
  intro other
  rw [answer_writer?, answer_writer?, BeanRegistry.answer_get?_aftermath]

/-- A lookup of a descriptor changes no writer. -/
theorem sameWriters_descriptor (type : TypeId) (b : Beans) :
    SameWriters decls b (aftermath (inRegistry (BeanRegistry.get? decls type) b)) := by
  have kept : SameWriters decls b _ := sameWriters_of_registry type b
  rw [inRegistry]
  rcases found : BeanRegistry.get? decls type b.registry with ⟨d, registry⟩ | ⟨reason, registry⟩ <;>
    rw [found] at kept <;> exact kept

/-- A lookup of a writer changes no writer: one that it makes is what would be made again. -/
theorem sameWriters_writer? (type : TypeId) (b : Beans) :
    SameWriters decls b (aftermath (writer? decls type b)) := by
  rcases cached : b.writers.get? type with _ | d
  · have kept : SameWriters decls b _ := sameWriters_of_registry type b
    rw [writer?_of_not_cached cached]
    rcases found : BeanRegistry.get? decls type b.registry with
      ⟨_ | d, registry⟩ | ⟨reason, registry⟩ <;> rw [found] at kept
    · exact kept
    · intro other
      rw [kept other, aftermath, aftermath, answer_writer?, answer_writer?, Table.get?_set]
      by_cases same : other = type
      · subst same
        have again : _ = answer (BeanRegistry.get? decls other b.registry) :=
          BeanRegistry.answer_get?_aftermath other other b.registry
        rw [found, aftermath] at again
        rw [if_pos rfl, cached]
        exact again
      · rw [if_neg same]
    · exact kept
  · rw [writer?_of_cached cached]
    exact .refl b

end Beans

end BeanStream
