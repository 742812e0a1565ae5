import BeanStream.Proofs.Bean.Coherence
import BeanStream.Proofs.Store.Typing

/-!
# Accessors are given values of their type

A descriptor reads the slots of instances. It **fits** the layout of types if instances of its type
have the slots that it reads, and it is built that way: what a type declares are its own fields.

Descriptors are found by type, in a registry or among the writers that were made over it. Main
fact: after any row of requests with descriptors that fit, what is found for the type of a typed
value **has access to that value** (`Beans.Fitting.accesses`): it is the descriptor of this very
type, every field can be read, and if it promises conventions, they are there.
-/

namespace BeanStream

variable {L : Layout}

/-- Instances of the type have the slots that are read, and conventions if they are promised. -/
structure Descriptor.Fits (L : Layout) (d : Descriptor) : Prop where
  fields : ∀ f ∈ d.fields, ∃ n, L.slots d.type = some n ∧ f.slot < n
  conventions : d.conventions = true → ∃ n, L.slots d.type = some n

/-- A type that declares fields or conventions has instances, with a slot for each field. -/
def Declaration.Fits (L : Layout) (type : TypeId) (decl : Declaration) : Prop :=
  decl.fields ≠ [] ∨ decl.conventions = true → ∃ n, L.slots type = some n ∧ decl.fields.length ≤ n

/-- Types declare what their instances have. -/
def Declarations.Fits (L : Layout) (decls : Declarations) : Prop :=
  ∀ {type decl}, decls.get? type = some decl → decl.Fits L type

/-- A descriptor has access to all that it describes of a value. -/
structure Descriptor.Accesses (d : Descriptor) (v : Value) : Prop where
  type_eq : d.type = v.typeId
  read : ∀ f ∈ d.fields, ∃ raw, d.read f v = some raw
  conventions : d.conventions = true → ∃ mapping, d.conventionsOf v = some mapping

/-- A descriptor that fits has access to the typed values of its type. -/
theorem Descriptor.Fits.accesses {d : Descriptor} {v : Value} (h : d.Fits L) (typed : v.Typed L)
    (same : d.type = v.typeId) : d.Accesses v := by
  refine ⟨same, fun f mem => ?_, fun promised => ?_⟩
  · obtain ⟨n, slots, less⟩ := h.fields f mem
    obtain ⟨type, own, mapping, rfl, rfl⟩ := typed.exists_bean (same ▸ slots)
    refine ⟨own[f.slot], ?_⟩
    rw [Descriptor.read, if_pos same.symm]
    exact List.getElem?_eq_getElem less
  · obtain ⟨n, slots⟩ := h.conventions promised
    obtain ⟨type, own, mapping, rfl, -⟩ := typed.exists_bean (same ▸ slots)
    refine ⟨mapping, ?_⟩
    rw [Descriptor.conventionsOf, if_pos]
    rw [promised, same, Bool.true_and, decide_eq_true rfl]

/-- A declaration describes its type, with a slot for each field that is declared. -/
theorem Descriptor.of_ofDeclaration {type : TypeId} {decl : Declaration} {d : Descriptor}
    (h : ofDeclaration type decl = .ok (.ok d)) :
    d.type = type ∧ d.conventions = decl.conventions ∧
      ∀ f ∈ d.fields, f.slot < decl.fields.length := by
  rw [ofDeclaration] at h
  dsimp only at h
  generalize listed : decl.fields.zipIdx.map _ = fields at h
  have slots : ∀ f ∈ fields, f.slot < decl.fields.length := by
    rintro f mem
    rw [← listed] at mem
    obtain ⟨named, place, rfl⟩ := List.mem_map.1 mem
    exact List.snd_lt_of_mem_zipIdx place
  split at h
  · rw [ofFields] at h
    split at h <;> cases h
    exact ⟨rfl, rfl, slots⟩
  · rw [build] at h
    rcases valid : validate decl.path fields with e | ⟨⟩ <;> rw [valid] at h <;> cases h
    exact ⟨rfl, rfl, slots⟩

/-- A declaration that fits its type describes it, and the descriptor fits. -/
theorem Declaration.Fits.of_ofDeclaration {type : TypeId} {decl : Declaration} {d : Descriptor}
    (h : decl.Fits L type) (describes : Descriptor.ofDeclaration type decl = .ok (.ok d)) :
    d.type = type ∧ d.Fits L := by
  obtain ⟨rfl, conventions, slots⟩ := Descriptor.of_ofDeclaration describes
  refine ⟨rfl, fun f mem => ?_, fun promised => ?_⟩
  · have less := slots f mem
    obtain ⟨n, has, fewer⟩ := h (.inl (List.ne_nil_of_length_pos (Nat.zero_lt_of_lt less)))
    exact ⟨n, has, Nat.lt_of_lt_of_le less fewer⟩
  · obtain ⟨n, has, -⟩ := h (.inr (conventions.symm.trans promised))
    exact ⟨n, has⟩

/-- What types declare describes them, and fits. -/
theorem Declarations.Fits.of_describe {decls : Declarations} {type : TypeId} {d : Descriptor}
    (h : decls.Fits L) (describes : decls.describe type = .ok (.ok d)) :
    d.type = type ∧ d.Fits L := by
  rw [Declarations.describe] at describes
  refine Declaration.Fits.of_ofDeclaration ?_ describes
  rcases found : decls.get? type with _ | decl
  -- a type without a declaration declares nothing
  · rintro (fields | conventions)
    · exact absurd rfl fields
    · cases conventions
  · exact h found

namespace BeanRegistry

variable {r : BeanRegistry} {decls : Declarations} {type : TypeId}

/-- Descriptors are found under their own types, and fit. -/
def Fitting (L : Layout) (r : BeanRegistry) : Prop :=
  ∀ {type d}, r.built? type = some d → d.type = type ∧ d.Fits L

/-- A type is registered, with its descriptor or without one. -/
theorem Fitting.add {registration : Registration} (h : r.Fitting L)
    (own : ∀ d, registration.built? = some d → d.type = type ∧ d.Fits L) :
    (r.add type registration).2.Fitting L := by
  intro other d built
  rw [BeanRegistry.add] at built
  split at built
  · exact h built
  · rw [built?, Table.get?_set] at built
    split at built
    · rename_i same
      exact same ▸ own d built
    · exact h built

theorem Fitting.foldl_register (h : r.Fitting L) (types : List TypeId) :
    (types.foldl (fun r type => (r.register decls type).2) r).Fitting L := by
  induction types generalizing r with
  | nil => exact h
  | cons type types ih => exact ih (h.add (by rintro d ⟨⟩))

theorem Fitting.autoRegister (h : r.Fitting L) (asking : List TypeId) :
    (r.autoRegister decls asking).2.Fitting L := by
  rw [BeanRegistry.autoRegister]
  split
  · exact h
  · exact h.foldl_register (availability :: asking)

/-- A lookup keeps what the type declares, if it keeps anything. -/
theorem LooksUp.fitting {result : EStateM.Result Abort BeanRegistry (Option Descriptor)}
    (looksUp : LooksUp decls type r result) (h : r.Fitting L) (fits : decls.Fits L) :
    (aftermath result).Fitting L := by
  cases looksUp with
  | missing | known | panicked => exact h
  | described registered describes =>
    intro other d built
    rw [built?, aftermath, Table.get?_set] at built
    split at built
    · rename_i same
      cases built
      exact same ▸ fits.of_describe describes
    · exact h built

end BeanRegistry

namespace Beans

variable {b : Beans} {decls : Declarations}

/-- The descriptors that come with a request fit. -/
def Request.Fits (L : Layout) : Request → Prop
  | .insert d => d.Fits L
  | .descriptor decls _ | .descriptorAt decls _ | .writer decls _ => decls.Fits L
  | .register _ _ | .autoRegister _ _ | .hasWriter _ | .countWriters => True

/-- A request that fits leaves descriptors that do. -/
theorem Request.fitting_perform (backed : b.Backed) (h : b.registry.Fitting L) {q : Request}
    (fits : q.Fits L) : (q.perform b).2.registry.Fitting L := by
  rcases target : q.lookup? b with _ | ⟨decls, type⟩
  · cases q with
    | register decls type => exact h.add (by rintro d ⟨⟩)
    | insert d => exact h.add fun _ own => Option.some.inj own ▸ ⟨rfl, fits⟩
    | autoRegister decls asking => exact h.autoRegister asking
    | descriptor | writer => cases target
    | descriptorAt decls path =>
      rw [perform, perform_inRegistry, BeanRegistry.getWithPath?_eq,
        Option.map_eq_none_iff.1 target]
      exact h
    | hasWriter | countWriters => exact h
  · obtain ⟨result, looksUp, -, left⟩ := looksUp_perform backed target
    rw [left]
    refine looksUp.fitting h ?_
    cases q with
    | register | insert | autoRegister | hasWriter | countWriters => cases target
    | descriptor | writer =>
      cases target
      exact fits
    | descriptorAt decls' path =>
      obtain ⟨own, -, same⟩ := Option.map_eq_some_iff.1 target
      cases same
      exact fits

/-- A registry, and the writers made over it, after requests that fit. -/
def Fitting (L : Layout) (b : Beans) : Prop := ∃ qs, (∀ q ∈ qs, q.Fits L) ∧ b = after qs

namespace Fitting

theorem backed (h : b.Fitting L) : b.Backed := by
  obtain ⟨qs, -, rfl⟩ := h
  exact backed_after qs

theorem registry (h : b.Fitting L) : b.registry.Fitting L := by
  obtain ⟨qs, fits, rfl⟩ := h
  -- one request after the other
  induction qs using List.reverseRecOn with
  | nil => exact fun built => nomatch built
  | append_singleton qs q ih =>
    rw [after_concat]
    refine Request.fitting_perform (backed_after qs) (ih fun q mem => ?_) (fits q ?_)
    · exact fits q (List.mem_append_left _ mem)
    · exact List.mem_append_right _ (List.mem_singleton_self q)

/-- To ask for a writer is a request. -/
theorem writer? (h : b.Fitting L) (fits : decls.Fits L) (type : TypeId) :
    (aftermath (writer? decls type b)).Fitting L := by
  obtain ⟨qs, earlier, rfl⟩ := h
  let request := Request.writer decls type
  refine ⟨qs ++ [request], fun q mem => ?_, (after_concat qs request).symm⟩
  rcases List.mem_append.1 mem with mem | mem
  · exact earlier q mem
  · rw [List.mem_singleton.1 mem]
    exact fits

/-- The writer that is found for the type of a typed value has access to the value. -/
theorem accesses (h : b.Fitting L) (fits : decls.Fits L) {v : Value} (typed : v.Typed L)
    {d : Descriptor} (found : answer (Beans.writer? decls v.typeId b) = .ok (some d)) :
    d.Accesses v := by
  have hands : (Request.writer decls v.typeId).Hands b v.typeId d :=
    ⟨decls, rfl, congrArg Reply.ofAnswer found⟩
  have built := hands.finds.built h.backed
  obtain ⟨same, own⟩ := (h.writer? fits v.typeId).registry built
  exact own.accesses typed same

end Fitting

end Beans

end BeanStream
