import BeanStream.Bean.Declaration
import BeanStream.Write.Error

/-!
# Bean descriptors

The relevant fields of a bean type, in declaration order, with the way to read each from an
instance. Fields are named by **non-empty, pairwise distinct** names: the check reports the
first field that breaks this, and fields that are **promised** to be named well have to be.
A descriptor reads instances of **its own type only**.
-/

namespace BeanStream

/-- A field: its name, and the slot of an instance that holds it. -/
structure Field where
  name : String
  slot : Nat
  deriving DecidableEq

/-- Why fields do not describe a bean. -/
inductive DescriptorError where
  /-- A field has no name. -/
  | emptyName (path : String)
  /-- A field has the name of an earlier one. -/
  | duplicateName (path name : String)
  deriving DecidableEq

namespace DescriptorError

/-- The text of a failure. -/
def message : DescriptorError → String
  | .emptyName path => "a field of bean `" ++ path ++ "` has an empty name"
  | .duplicateName path name =>
    "bean `" ++ path ++ "` declares the field `" ++ name ++ "` twice"

/-- A failure as a record. -/
def debug : DescriptorError → String
  | .emptyName path => Text.record "EmptyName" [("type_path", Text.quote path)]
  | .duplicateName path name =>
    Text.record "DuplicateName" [("type_path", Text.quote path), ("name", Text.quote name)]

end DescriptorError

/-- A described bean type. -/
structure Descriptor where
  type : TypeId
  path : String
  fields : List Field
  /-- Whether instances bring conventions. -/
  conventions : Bool
  deriving DecidableEq

namespace Descriptor

/-- Checks fields from left to right against the names in front of them. -/
def validateFrom (path : String) :
    (earlier : List String) → List Field → Except DescriptorError Unit
  | _, [] => .ok ()
  | earlier, f :: fs =>
    if f.name = "" then .error (.emptyName path)
    else if f.name ∈ earlier then .error (.duplicateName path f.name)
    else validateFrom path (earlier ++ [f.name]) fs

/-- Checks that names are there and differ. -/
def validate (path : String) (fields : List Field) : Except DescriptorError Unit :=
  validateFrom path [] fields

private theorem validateFrom_eq_ok_iff {path : String} {earlier : List String}
    {fields : List Field} :
    validateFrom path earlier fields = .ok () ↔
      (∀ f ∈ fields, f.name ≠ "" ∧ f.name ∉ earlier) ∧ (fields.map Field.name).Nodup := by
  induction fields generalizing earlier with
  | nil => simp [validateFrom]
  | cons f fs ih =>
    unfold validateFrom
    by_cases empty : f.name = ""
    · simp [empty]
    by_cases taken : f.name ∈ earlier
    · simp [empty, taken]
    simp only [empty, taken, if_false, ih, List.mem_append, List.mem_singleton, not_or,
      List.forall_mem_cons, List.map_cons, List.nodup_cons, List.mem_map, not_exists, not_and,
      not_false_eq_true, true_and, ne_eq]
    constructor
    · rintro ⟨fresh, distinct⟩
      exact ⟨fun g hg => ⟨(fresh g hg).1, (fresh g hg).2.1⟩,
        fun g hg => (fresh g hg).2.2, distinct⟩
    · rintro ⟨fresh, once, distinct⟩
      exact ⟨fun g hg => ⟨(fresh g hg).1, (fresh g hg).2, once g hg⟩, distinct⟩

/-- Fields pass exactly if all of them have names and the names differ. -/
theorem validate_eq_ok_iff {path : String} {fields : List Field} :
    validate path fields = .ok () ↔
      (∀ f ∈ fields, f.name ≠ "") ∧ (fields.map Field.name).Nodup := by
  simp [validate, validateFrom_eq_ok_iff]

/-- A descriptor with checked fields. -/
def build (type : TypeId) (path : String) (fields : List Field) (conventions : Bool) :
    Except DescriptorError Descriptor := do
  validate path fields
  return { type, path, fields, conventions }

/-- The field with a name. -/
def field? (d : Descriptor) (name : String) : Option Field := d.fields.find? (·.name = name)

/-- The value of a field of an instance, or nothing if `v` is of another type. -/
def read (d : Descriptor) (f : Field) (v : Value) : Option Value :=
  if v.typeId = d.type then
    match v with
    | .bean _ slots _ => slots[f.slot]?
    | _ => none
  else none

/-- The mapping with the conventions of an instance, if its type brings any. -/
def conventionsOf (d : Descriptor) (v : Value) : Option Nat :=
  if d.conventions && v.typeId = d.type then
    match v with
    | .bean _ _ mapping => some mapping
    | _ => none
  else none

/-- A descriptor as a record. -/
def debug (d : Descriptor) : String :=
  Text.record "BeanDescriptor"
    [("type_path", Text.quote d.path),
      ("fields", Text.listing (d.fields.map fun f =>
        Text.partialRecord "FieldDescriptor" [("name", Text.quote f.name)])),
      ("conventions", Text.flag d.conventions)]

/-- A descriptor with fields that are promised to be named well. A broken promise is a panic. -/
def ofFields (type : TypeId) (path : String) (fields : List Field) (conventions : Bool) :
    Except Abort Descriptor :=
  match validate path fields with
  | .ok _ => .ok { type, path, fields, conventions }
  | .error _ => .error .panic

/-- What a declaration describes: the fields are the slots, in order. -/
def ofDeclaration (type : TypeId) (decl : Declaration) :
    Except Abort (Except DescriptorError Descriptor) :=
  let fields := decl.fields.zipIdx.map fun (name, slot) => { name, slot }
  if decl.trusted then .ok <$> ofFields type decl.path fields decl.conventions
  else .ok (build type decl.path fields decl.conventions)

end Descriptor

end BeanStream
