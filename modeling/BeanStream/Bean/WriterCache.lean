import BeanStream.Bean.Registry

/-!
# Writer caches

The writers of bean types, made on first use over a registry that may still grow. A writer is
its descriptor. Once made, a writer **stays as it is** and the registry is not asked again
(`writer?_of_cached`); a type that is no bean is looked up anew each time, so that beans
registered later are found.
-/

namespace BeanStream

/-- A registry, with the writers made over it. -/
structure Beans where
  registry : BeanRegistry := {}
  writers : TypeMap Descriptor := .empty

namespace Beans

/-- Asks the registry. -/
def inRegistry {α : Type} (query : EStateM Abort BeanRegistry α) : EStateM Abort Beans α := fun b =>
  match query b.registry with
  | .ok a registry => .ok a { b with registry }
  | .error reason registry => .error reason { b with registry }

/-- The writer of a type, made if this was not done before. -/
def writer? (decls : Declarations) (type : TypeId) : EStateM Abort Beans (Option Descriptor) := do
  match (← get).writers.get? type with
  | some d => return some d
  | none =>
    match ← inRegistry (BeanRegistry.get? decls type) with
    | none => return none
    | some d =>
      modify fun b => { b with writers := b.writers.set type d }
      return some d

/-- The number of writers as a record. -/
def debug (b : Beans) : String :=
  Text.partialRecord "BeanWriterCache" [("writers", toString b.writers.size)]

/-- A writer that was made stays, and the registry is not asked. -/
theorem writer?_of_cached {b : Beans} {type : TypeId} {d : Descriptor}
    (h : b.writers.get? type = some d) (decls : Declarations) :
    writer? decls type b = .ok (some d) b := by
  rw [writer?]
  change EStateM.bind _ _ b = _
  rw [EStateM.bind]
  change (match b.writers.get? type with | some d => _ | none => _ : EStateM Abort Beans _) b = _
  rw [h]
  rfl

/-- A writer that is not made yet is what the registry answers. -/
theorem writer?_of_not_cached {b : Beans} {type : TypeId} (h : b.writers.get? type = none)
    (decls : Declarations) :
    writer? decls type b =
      match BeanRegistry.get? decls type b.registry with
      | .ok none registry => .ok none { b with registry }
      | .ok (some d) registry => .ok (some d) { b with registry, writers := b.writers.set type d }
      | .error reason registry => .error reason { b with registry } := by
  rw [writer?]
  change EStateM.bind _ _ b = _
  rw [EStateM.bind]
  change (match b.writers.get? type with | some d => _ | none => _ : EStateM Abort Beans _) b = _
  rw [h]
  change EStateM.bind _ _ b = _
  rw [EStateM.bind, inRegistry]
  rcases BeanRegistry.get? decls type b.registry with ⟨_ | d, registry⟩ | ⟨reason, registry⟩ <;> rfl

end Beans

/-- A writer as a record. -/
def Descriptor.writerDebug (d : Descriptor) : String :=
  Text.record "BeanPropertyWriter" [("descriptor", d.debug)]

end BeanStream
