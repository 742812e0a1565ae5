import BeanStream.Bean.Descriptor

/-!
# Bean registries

The bean types that can be written. Registering a type records its type path only; the
descriptor is **built on first use** from what the type declares by then, and kept. A build
that ends in a panic is not kept, so the next use tries again. A descriptor that was built
elsewhere can be inserted as it is.

Two tables are kept in step: the registrations by type, and the type **most recently
registered** under each type path. The registry also keeps the types whose declarations it
asked to be built, one entry for each time.
-/

namespace BeanStream

/-- What is known of a registered type. -/
inductive Registration where
  /-- Registered under a path, with its descriptor once it is built. -/
  | deferred (path : String) (built : Option Descriptor)
  /-- Inserted with its descriptor. -/
  | ready (d : Descriptor)

/-- The type path under which a type was registered. -/
def Registration.path : Registration → String
  | .deferred path _ => path
  | .ready d => d.path

/-- The descriptor, if it exists. -/
def Registration.built? : Registration → Option Descriptor
  | .deferred _ built => built
  | .ready d => some d

/-- A registry of bean types. -/
structure BeanRegistry where
  registrations : TypeMap Registration := .empty
  /-- The type found under a type path. -/
  paths : Table String TypeId := .empty
  /-- The types whose declarations were asked to be built, latest first. -/
  builds : List TypeId := []

/-- What the declaration of a type describes. A type without a declaration has no fields. -/
def Declarations.describe (decls : Declarations) (type : TypeId) :
    Except Abort (Except DescriptorError Descriptor) :=
  Descriptor.ofDeclaration type ((decls.get? type).getD { path := type.name })

namespace BeanRegistry

/-- Whether a type is registered. -/
def contains (r : BeanRegistry) (type : TypeId) : Bool := r.registrations.contains type

/-- How many types are registered. -/
def size (r : BeanRegistry) : Nat := r.registrations.size

/-- The type paths under which types were registered, one for each type. -/
def typePaths (r : BeanRegistry) : List String := r.registrations.values.map Registration.path

/-- The type registered under a type path. -/
def typeOf? (r : BeanRegistry) (path : String) : Option TypeId := r.paths.get? path

/-- Adds a registration, if the type has none. The answer is whether it was added. -/
def add (r : BeanRegistry) (type : TypeId) (registration : Registration) : Bool × BeanRegistry :=
  if r.contains type then (false, r)
  else
    (true, { r with
      registrations := r.registrations.set type registration
      paths := r.paths.set registration.path type })

/-- Registers a type under the path that it declares. -/
def register (decls : Declarations) (type : TypeId) (r : BeanRegistry) : Bool × BeanRegistry :=
  r.add type (.deferred (decls.path type) none)

/-- Registers a type with its descriptor. -/
def insert (d : Descriptor) (r : BeanRegistry) : Bool × BeanRegistry := r.add d.type (.ready d)

/-- The type whose presence tells that automatic registration has run. -/
def availability : TypeId :=
  .named "stash_bean::__macro_exports::auto_register::__AvailFlag"

/-- Registers the types that ask for it, unless this was done before. The answer is whether
automatic registration works. -/
def autoRegister (decls : Declarations) (asking : List TypeId) (r : BeanRegistry) :
    Bool × BeanRegistry :=
  if r.contains availability then (true, r)
  else
    let r := (availability :: asking).foldl (fun r type => (r.register decls type).2) r
    (r.contains availability, r)

/-- The descriptor of a registered type, built if this was not done before. -/
def get? (decls : Declarations) (type : TypeId) : EStateM Abort BeanRegistry (Option Descriptor) :=
  fun r =>
    match r.registrations.get? type with
    | none => .ok none r
    | some (.ready d) => .ok (some d) r
    | some (.deferred _ (some d)) => .ok (some d) r
    | some (.deferred path none) =>
      let r := { r with builds := type :: r.builds }
      match decls.describe type with
      | .error reason => .error reason r
      | .ok (.error _) => .error .panic r
      | .ok (.ok d) =>
        .ok (some d)
          { r with registrations := r.registrations.set type (.deferred path (some d)) }

/-- The descriptor of the type registered under a type path. -/
def getWithPath? (decls : Declarations) (path : String) :
    EStateM Abort BeanRegistry (Option Descriptor) := do
  match (← EStateM.get).typeOf? path with
  | none => return none
  | some type => get? decls type

/-- The type paths as a set. -/
def debug (r : BeanRegistry) : String := Text.braced (r.typePaths.map Text.quote)

/-! ### Main facts -/

/-- A registered type is not registered again, and nothing changes. -/
theorem add_of_contains {r : BeanRegistry} {type : TypeId} (h : r.contains type = true)
    (registration : Registration) : r.add type registration = (false, r) := by
  simp [add, h]

end BeanRegistry

end BeanStream
