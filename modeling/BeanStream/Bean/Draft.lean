import BeanStream.Bean.Descriptor

/-!
# Drafts of descriptors

A descriptor may be put together **call by call**. It starts without fields, and its path is the
name of the type; a call sets the path anew, appends a field, or says that instances bring
conventions. The names of the fields are checked **once, at the end**.
-/

namespace BeanStream

/-- A descriptor whose fields are not checked yet. -/
structure Draft where
  type : TypeId
  path : String
  fields : List Field
  conventions : Bool

namespace Draft

/-- What is added to a draft. -/
inductive Call where
  | path (path : String)
  | field (field : Field)
  | conventions
  deriving DecidableEq

/-- The path that a call sets. -/
def Call.path? : Call → Option String
  | .path p => some p
  | .field _ | .conventions => none

/-- The field that a call appends. -/
def Call.field? : Call → Option Field
  | .field f => some f
  | .path _ | .conventions => none

/-- The draft of a type before any call. -/
def start (type : TypeId) : Draft := { type, path := type.name, fields := [], conventions := false }

/-- A draft after one more call. -/
def after (d : Draft) : Call → Draft
  | .path p => { d with path := p }
  | .field f => { d with fields := d.fields ++ [f] }
  | .conventions => { d with conventions := true }

/-- The draft of a type after some calls. -/
def ofCalls (type : TypeId) (calls : List Call) : Draft := calls.foldl after (start type)

/-- The descriptor of a draft, with checked fields. -/
def build (d : Draft) : Except DescriptorError Descriptor :=
  Descriptor.build d.type d.path d.fields d.conventions

/-- The last path counts, the fields stay in their order, and conventions are there once they are
called for. -/
theorem foldl_after (d : Draft) (calls : List Call) : calls.foldl after d =
    { type := d.type
      path := (calls.filterMap Call.path?).getLast?.getD d.path
      fields := d.fields ++ calls.filterMap Call.field?
      conventions := d.conventions || Call.conventions ∈ calls } := by
  induction calls generalizing d with
  | nil => simp
  | cons call calls ih =>
    rw [List.foldl_cons, ih]
    cases call with
    | path p => simp [after, Call.path?, Call.field?, List.filterMap_cons, List.getLast?_cons]
    | field f => simp [after, Call.path?, Call.field?, List.filterMap_cons]
    | conventions => simp [after, Call.path?, Call.field?, List.filterMap_cons]

theorem ofCalls_eq (type : TypeId) (calls : List Call) : ofCalls type calls =
    { type
      path := (calls.filterMap Call.path?).getLast?.getD type.name
      fields := calls.filterMap Call.field?
      conventions := Call.conventions ∈ calls } := by
  rw [ofCalls, foldl_after]
  simp [start]

/-- What a declaration that is not trusted describes is drafted by these calls. -/
theorem ofDeclaration_eq_build (type : TypeId) {decl : Declaration}
    (checked : decl.trusted = false) :
    Descriptor.ofDeclaration type decl = .ok (ofCalls type (.path decl.path ::
      (decl.fields.zipIdx.map fun (name, slot) => .field { name, slot }) ++
        if decl.conventions then [.conventions] else [])).build := by
  have named : (fun (name, slot) => Call.field { name, slot } : String × Nat → Call) =
      Call.field ∘ fun (name, slot) => { name, slot } := rfl
  rw [Descriptor.ofDeclaration, ofCalls_eq, build, named, ← List.map_map]
  generalize decl.fields.zipIdx.map _ = fields
  have paths : (fields.map Call.field).filterMap Call.path? = [] := by
    rw [List.filterMap_eq_nil_iff, List.forall_mem_map]
    exact fun _ _ => rfl
  have kept : (fields.map Call.field).filterMap Call.field? = fields := by
    rw [List.filterMap_map]
    exact List.filterMap_some
  cases decl.conventions <;>
    simp [checked, paths, kept, Call.path?, Call.field?, List.filterMap_cons, -List.filterMap_map]

end Draft

end BeanStream
