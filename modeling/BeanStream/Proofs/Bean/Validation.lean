import BeanStream.Bean.Draft
import Mathlib.Data.List.Nodup

/-!
# Which fields describe a bean

Fields are rejected for the **first** name that is empty or that of an earlier field, and for
nothing else (`Descriptor.validate_eq_error_iff`). Both kinds of faults may be mixed.

Main fact: **a draft is built exactly if its names are there and differ**, and then the descriptor
has what was drafted, and finds each field by its name; otherwise the error is the one about the
first fault, under the last path that was set; and fields that are promised to be named well panic
in the same cases (`Draft.decides`).
-/

namespace BeanStream

namespace Descriptor

variable {path : String} {names earlier : List String} {fields : List Field}
  {e e' : DescriptorError} {j : Nat}

/-- What is wrong at a place: the name is empty, or that of an earlier place. -/
inductive Fault (path : String) (names : List String) (j : Nat) : DescriptorError → Prop
  | empty (own : names[j]? = some "") : Fault path names j (.emptyName path)
  | duplicate {name} (own : names[j]? = some name) (named : name ≠ "")
      (earlier : name ∈ names.take j) : Fault path names j (.duplicateName path name)

/-- What is wrong at the first place with a fault, of those from `k` on. -/
def FirstFault (path : String) (names : List String) (k : Nat) (e : DescriptorError) : Prop :=
  ∃ j, k ≤ j ∧ Fault path names j e ∧ ∀ i, k ≤ i → i < j → ∀ e', ¬ Fault path names i e'

/-- The first place is `k`, or one behind it. -/
theorem firstFault_iff {k : Nat} : FirstFault path names k e ↔
    Fault path names k e ∨ (∀ e', ¬ Fault path names k e') ∧ FirstFault path names (k + 1) e := by
  constructor
  · rintro ⟨j, behind, fault, first⟩
    rcases Nat.eq_or_lt_of_le behind with rfl | behind
    · exact .inl fault
    · exact .inr ⟨first k (Nat.le_refl k) behind, j, behind, fault,
        fun i from_ => first i (Nat.le_of_lt from_)⟩
  · rintro (fault | ⟨none, j, behind, fault, first⟩)
    · exact ⟨k, Nat.le_refl k, fault, fun i from_ less => absurd less (Nat.not_lt.2 from_)⟩
    · refine ⟨j, Nat.le_of_succ_le behind, fault, fun i from_ less => ?_⟩
      rcases Nat.eq_or_lt_of_le from_ with rfl | from_
      · exact none
      · exact first i from_ less

/-- What is wrong with a name behind others. -/
theorem fault_append_cons_iff {name : String} {later : List String} :
    Fault path (earlier ++ name :: later) earlier.length e ↔
      name = "" ∧ e = .emptyName path ∨
      name ≠ "" ∧ name ∈ earlier ∧ e = .duplicateName path name := by
  have own : (earlier ++ name :: later)[earlier.length]? = some name := by simp
  have front : (earlier ++ name :: later).take earlier.length = earlier := by simp
  constructor
  · rintro (own' | ⟨own', named, taken⟩)
    · exact .inl ⟨Option.some.inj (own.symm.trans own'), rfl⟩
    · cases Option.some.inj (own.symm.trans own')
      exact .inr ⟨named, front ▸ taken, rfl⟩
  · rintro (⟨rfl, rfl⟩ | ⟨named, taken, rfl⟩)
    · exact .empty own
    · exact .duplicate own named (front.symm ▸ taken)

/-- Behind the last name nothing is wrong. -/
theorem not_firstFault_length : ¬ FirstFault path names names.length e := by
  rintro ⟨j, behind, fault, -⟩
  have none : names[j]? = none := List.getElem?_eq_none behind
  cases fault with
  | empty own | duplicate own => cases none.symm.trans own

theorem validateFrom_eq_error_iff : validateFrom path earlier fields = .error e ↔
    FirstFault path (earlier ++ fields.map Field.name) earlier.length e := by
  induction fields generalizing earlier with
  | nil =>
    rw [validateFrom, List.map_nil, List.append_nil]
    refine iff_of_false ?_ not_firstFault_length
    rintro ⟨⟩
  | cons f fs ih =>
    rw [validateFrom, List.map_cons, firstFault_iff]
    simp only [fault_append_cons_iff]
    by_cases empty : f.name = ""
    · simp [empty, eq_comm]
    by_cases taken : f.name ∈ earlier
    · simp [empty, taken, eq_comm]
    -- nothing is wrong with `f`, whose name is then one of those in front
    have behind := @ih (earlier ++ [f.name])
    rw [List.append_assoc, List.singleton_append, List.length_append] at behind
    simpa [empty, taken] using behind

/-- Fields are rejected for the first name that is wrong. -/
theorem validate_eq_error_iff : validate path fields = .error e ↔
    FirstFault path (fields.map Field.name) 0 e := validateFrom_eq_error_iff

theorem build_eq_ok_iff {type : TypeId} {conventions : Bool} {d : Descriptor} :
    build type path fields conventions = .ok d ↔
      validate path fields = .ok () ∧ d = { type, path, fields, conventions } := by
  rw [build]
  cases validate path fields <;> simp [bind, Except.bind, pure, Except.pure, eq_comm]

theorem build_eq_error_iff {type : TypeId} {conventions : Bool} :
    build type path fields conventions = .error e ↔ validate path fields = .error e := by
  rw [build]
  cases validate path fields <;> simp [bind, Except.bind, pure, Except.pure]

theorem of_field? {d : Descriptor} {name : String} {f : Field} (found : d.field? name = some f) :
    f ∈ d.fields ∧ f.name = name := by
  rw [field?] at found
  have named := List.find?_some found
  exact ⟨List.mem_of_find?_eq_some found, of_decide_eq_true named⟩

theorem field?_eq_none_iff {d : Descriptor} {name : String} :
    d.field? name = none ↔ ∀ f ∈ d.fields, f.name ≠ name := by
  simp [field?]

/-- Among fields with different names, the one with a name is found. -/
theorem field?_eq_some_iff {d : Descriptor} (distinct : (d.fields.map Field.name).Nodup)
    {name : String} {f : Field} : d.field? name = some f ↔ f ∈ d.fields ∧ f.name = name := by
  refine ⟨of_field?, ?_⟩
  rintro ⟨mem, rfl⟩
  rcases found : d.field? f.name with _ | g
  · exact absurd rfl (field?_eq_none_iff.1 found f mem)
  · obtain ⟨mem', same⟩ := of_field? found
    exact congrArg some (List.inj_on_of_nodup_map distinct mem' mem same)

end Descriptor

namespace Draft

/-- What is certain of a draft. -/
structure Decides (d : Draft) : Prop where
  /-- It is built exactly if all names are there and differ. -/
  accepted : (∃ b, d.build = .ok b) ↔
    (∀ f ∈ d.fields, f.name ≠ "") ∧ (d.fields.map Field.name).Nodup
  /-- The descriptor has what was drafted, -/
  described {b : Descriptor} (built : d.build = .ok b) :
    b.type = d.type ∧ b.path = d.path ∧ b.fields = d.fields ∧ b.conventions = d.conventions
  /-- and finds exactly one field by its name, -/
  found {b : Descriptor} (built : d.build = .ok b) (name : String) (f : Field) :
    b.field? name = some f ↔ f ∈ d.fields ∧ f.name = name
  /-- or none, exactly if there is none. -/
  missing {b : Descriptor} (built : d.build = .ok b) (name : String) :
    b.field? name = none ↔ ∀ f ∈ d.fields, f.name ≠ name
  /-- Otherwise the error is about the first name that is wrong. -/
  refused (e : DescriptorError) :
    d.build = .error e ↔ Descriptor.FirstFault d.path (d.fields.map Field.name) 0 e
  /-- Fields that are promised to be named well panic in the same cases, -/
  panics (conventions : Bool) :
    Descriptor.ofFields d.type d.path d.fields conventions = .error .panic ↔ ∃ e, d.build = .error e
  /-- and make up the same descriptor in all others. -/
  promised (b : Descriptor) :
    Descriptor.ofFields d.type d.path d.fields d.conventions = .ok b ↔ d.build = .ok b

theorem build_eq_ok_iff {d : Draft} {b : Descriptor} : d.build = .ok b ↔
    Descriptor.validate d.path d.fields = .ok () ∧
      b = { type := d.type, path := d.path, fields := d.fields, conventions := d.conventions } :=
  Descriptor.build_eq_ok_iff

theorem build_eq_error_iff {d : Draft} {e : DescriptorError} :
    d.build = .error e ↔ Descriptor.validate d.path d.fields = .error e :=
  Descriptor.build_eq_error_iff

/-- Whatever is drafted, call by call: its fields in the order of the calls, under the last path,
decide the outcome. -/
theorem decides (type : TypeId) (calls : List Call) :
    (ofCalls type calls).path = (calls.filterMap Call.path?).getLast?.getD type.name ∧
    (ofCalls type calls).fields = calls.filterMap Call.field? ∧
    (ofCalls type calls).Decides := by
  refine ⟨by rw [ofCalls_eq], by rw [ofCalls_eq], ?_⟩
  generalize ofCalls type calls = d
  constructor
  case accepted =>
    rw [← Descriptor.validate_eq_ok_iff]
    exact ⟨fun ⟨_, built⟩ => (build_eq_ok_iff.1 built).1,
      fun valid => ⟨_, build_eq_ok_iff.2 ⟨valid, rfl⟩⟩⟩
  case described =>
    intro b built
    obtain ⟨-, rfl⟩ := build_eq_ok_iff.1 built
    exact ⟨rfl, rfl, rfl, rfl⟩
  case found =>
    intro b built name f
    obtain ⟨valid, rfl⟩ := build_eq_ok_iff.1 built
    exact Descriptor.field?_eq_some_iff (Descriptor.validate_eq_ok_iff.1 valid).2
  case missing =>
    intro b built name
    obtain ⟨-, rfl⟩ := build_eq_ok_iff.1 built
    exact Descriptor.field?_eq_none_iff
  case refused => exact fun e => build_eq_error_iff.trans Descriptor.validate_eq_error_iff
  case panics =>
    intro conventions
    simp only [build_eq_error_iff, Descriptor.ofFields]
    cases Descriptor.validate d.path d.fields <;> simp
  case promised =>
    intro b
    rw [build_eq_ok_iff, Descriptor.ofFields]
    cases Descriptor.validate d.path d.fields <;> simp [eq_comm]

end Draft

end BeanStream
