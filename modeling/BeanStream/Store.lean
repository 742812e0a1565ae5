import BeanStream.Bean.Declaration
import BeanStream.Write.Error

/-!
# Stores

What changes while values are written: the content of property and file cells, the progress of
lazy cells, counters, boxes that a user fills and refills, and the convention mappings of
beans. Cells of every kind and the identities of suppliers are numbered by **one** counter, so
a number names one container only.

A computation on a store ends in a value, or is aborted.
-/

namespace BeanStream

/-- Whether a location is that of a file or of a directory. -/
inductive LocationKind where
  | file
  | directory
  deriving DecidableEq

/-- The name of a kind of location. -/
def LocationKind.name : LocationKind → String
  | .file => "File"
  | .directory => "Directory"

/-- A settable location in a file system. -/
structure FileCell where
  kind : LocationKind := .file
  /-- What relative locations are resolved against. -/
  base : Option String := none
  location : Option String := none

/-- A path is absolute if it starts at the root. -/
def isAbsolutePath (p : String) : Bool := p.startsWith "/"

/-- A relative path, resolved against a base: one separator stands between them, unless the
base is empty or ends with one. -/
def joinPath (base p : String) : String :=
  if isAbsolutePath p then p
  else if base.isEmpty || base.endsWith "/" then base ++ p
  else base ++ "/" ++ p

/-- The resolved location, if one is set. -/
def FileCell.get (f : FileCell) : Option String :=
  f.location.map fun p => (f.base.map (joinPath · p)).getD p

/-- How a lazy value comes by its content. -/
inductive Initializer where
  /-- A fixed value. -/
  | fixed (v : Option Value)
  /-- The content of a box. -/
  | reading (box : Nat)
  /-- An initializer that does not return. -/
  | panicking
  /-- The content of the lazy value in a box, or a text that says why it has none. -/
  | forcing (box : Nat)
  /-- A text about the progress of the lazy value in a box. -/
  | describing (box : Nat)
  /-- The current value of the provider in a box. -/
  | querying (box : Nat)

/-- The progress of a lazy value. -/
inductive LazyState where
  /-- Not begun. -/
  | pending (init : Initializer)
  /-- Its initializer runs on behalf of a thread. -/
  | forcing (owner : Nat)
  /-- Its content is settled. -/
  | ready (content : Option Value)
  /-- Its initializer did not return. -/
  | poisoned

/-- Everything that changes. -/
structure Store where
  properties : Table Nat (Option Value) := .empty
  files : Table Nat FileCell := .empty
  lazies : Table Nat LazyState := .empty
  /-- How often a counted supplier was queried, from a start of its own. -/
  counters : Table Nat Nat := .empty
  boxes : Table Nat (Option Value) := .empty
  /-- For every mapping, the identity and supply of the provider of each name. -/
  mappings : Table Nat (Table String (Nat × Supply)) := .empty
  /-- The first number that names nothing yet. -/
  fresh : Nat := 0

/-- Computations on a store. -/
abbrev StoreM := EStateM Abort Store

namespace Store

/-! ### New cells -/

/-- A number that names nothing yet. -/
def number : StoreM Nat := modifyGet fun s => (s.fresh, { s with fresh := s.fresh + 1 })

/-- A new property. -/
def newProperty (content : Option Value) : StoreM Value := do
  let n ← number
  modify fun s => { s with properties := s.properties.set n content }
  return .property n

/-- A new file property. -/
def newFile (f : FileCell) : StoreM Value := do
  let n ← number
  modify fun s => { s with files := s.files.set n f }
  return .file n

/-- A new lazy value. -/
def newLazy (state : LazyState) : StoreM Value := do
  let n ← number
  modify fun s => { s with lazies := s.lazies.set n state }
  return .lazy n

/-- A new counter. -/
def newCounter (start : Nat) : StoreM Nat := do
  let n ← number
  modify fun s => { s with counters := s.counters.set n start }
  return n

/-- A new box. -/
def newBox (content : Option Value) : StoreM Nat := do
  let n ← number
  modify fun s => { s with boxes := s.boxes.set n content }
  return n

/-- A new mapping without conventions. -/
def newMapping : StoreM Nat := do
  let n ← number
  modify fun s => { s with mappings := s.mappings.set n .empty }
  return n

/-- A new provider of a supply. -/
def newProvider (supply : Supply) : StoreM Value := return .provider (← number) supply

/-- A new producer of a supply. -/
def newProducer (supply : Supply) : StoreM Value := return .producer (← number) supply

/-! ### Contents -/

/-- The content of a property. -/
def property (s : Store) (cell : Nat) : Option Value := (s.properties.get? cell).getD none

/-- The location of a file property. -/
def file (s : Store) (cell : Nat) : FileCell := (s.files.get? cell).getD {}

/-- The progress of a lazy value. -/
def lazyState (s : Store) (cell : Nat) : LazyState := (s.lazies.get? cell).getD (.ready none)

/-- The content of a box. -/
def box (s : Store) (n : Nat) : Option Value := (s.boxes.get? n).getD none

/-- The conventions of a mapping. -/
def mapping (s : Store) (n : Nat) : Table String (Nat × Supply) :=
  (s.mappings.get? n).getD .empty

/-- Sets or clears a property. -/
def setProperty (s : Store) (cell : Nat) (content : Option Value) : Store :=
  { s with properties := s.properties.set cell content }

/-- Sets or clears the location of a file property. -/
def setLocation (s : Store) (cell : Nat) (location : Option String) : Store :=
  { s with files := s.files.set cell { s.file cell with location } }

/-- Sets the progress of a lazy value. -/
def setLazy (s : Store) (cell : Nat) (state : LazyState) : Store :=
  { s with lazies := s.lazies.set cell state }

/-- Fills or empties a box. -/
def setBox (s : Store) (n : Nat) (content : Option Value) : Store :=
  { s with boxes := s.boxes.set n content }

/-- Takes the content of a property or file property away. -/
def clear (s : Store) : Value → Store
  | .property cell => s.setProperty cell none
  | .file cell => s.setLocation cell none
  | _ => s

/-- Maps a name to a provider, in place of an earlier one. -/
def mapName (s : Store) (n : Nat) (name : String) (identity : Nat) (supply : Supply) : Store :=
  { s with mappings := s.mappings.set n ((s.mapping n).set name (identity, supply)) }

/-- Takes a name out of a mapping. -/
def unmapName (s : Store) (n : Nat) (name : String) : Store :=
  { s with mappings := s.mappings.set n ((s.mapping n).erase name) }

/-- The convention value of a name: the provider mapped to it. -/
def conventionValue (s : Store) (n : Nat) (name : String) : Option Value :=
  ((s.mapping n).get? name).map fun (identity, supply) => .provider identity supply

/-- The names of a mapping as a record, in order. -/
def mappingDebug (s : Store) (n : Nat) : String :=
  let names := (s.mapping n).keys.mergeSort (fun a b => decide (a ≤ b))
  Text.record "ConventionMapping" [("properties", Text.listing (names.map Text.quote))]

end Store

end BeanStream
