import BeanStream.Manifest.Value
import BeanStream.Table

/-!
# Manifest documents

A manifest is a document of nested tables with values. Its statements are **entries**, which give
a value to a key of the current table, and **headers**, which make a table the current one. A key
may be **dotted**, and then names a place in tables below.

A document is kept as a table from places to what stands there (`Node`). Each statement says
itself what must not be there yet: a value is never extended, a table is headed once, and tables
that dotted keys or longer headers brought along are distinguished, since only the latter may
still get a header of their own. The entries of a table that is written as a value are held to the
same rules (`Value.node?`). A document that breaks a rule is **malformed** and has no nodes at all
(`Document.ofStatements?`).
-/

namespace BeanStream.Manifest

/-- Where a table comes from. -/
inductive Origin where
  /-- It has a header. -/
  | headed
  /-- A longer header brought it along. -/
  | implied
  /-- A dotted key brought it along. -/
  | dotted
  deriving DecidableEq, Repr

/-- What stands at a place. -/
inductive Node where
  /-- A scalar, or a list of values. -/
  | plain
  /-- A table written as a value, with its keys. -/
  | inline (keys : List String)
  | table (origin : Origin)
  /-- A list of tables with headers, the last of which can be extended. -/
  | series
  deriving DecidableEq, Repr

/-- The nodes of a document. -/
abbrev Document := Table Place Node

/-- A statement of a manifest. -/
inductive Statement where
  /-- Gives a value to a key of the current table. -/
  | entry (key : Place) (value : Value)
  /-- Makes a table the current one. -/
  | header (place : Place)
  /-- Makes a new table, the last one of a list, the current one. -/
  | element (place : Place)

namespace Document

/-- Goes down from `place` along `keys`, and brings the missing tables along. -/
def descend (d : Document) (missing : Origin) (place : Place) : Place → Option Document
  | [] => some d
  | k :: ks =>
    let next := place ++ [k]
    match d.get? next with
    | none => descend (d.set next (.table missing)) missing next ks
    | some (.table .headed) => if missing = .dotted then none else descend d missing next ks
    | some (.table _) | some .series => descend d missing next ks
    | some .plain | some (.inline _) => none

/-- Puts a value at a key of the table at `place`. The key is new, and the tables in a dotted key
are none that a header stands for. -/
def enter (d : Document) (place key : Place) (value : Node) : Option Document := do
  let parents := key.dropLast
  let d ← descend d .dotted place parents
  let open? := parents.isEmpty || d.get? (place ++ parents) = some (.table .dotted)
  if open? && !d.contains (place ++ key) then some (d.set (place ++ key) value) else none

/-- Gives the table at `place` its header. -/
def head (d : Document) (place : Place) : Option Document := do
  let d ← descend d .implied [] place.dropLast
  match d.get? place with
  | none | some (.table .implied) => some (d.set place (.table .headed))
  | some _ => none

/-- The nodes that are not below a place. -/
def without (d : Document) (place : Place) : Document :=
  (d.keys.filter fun p => place.isPrefixOf p && p ≠ place).foldl Table.erase d

/-- Adds a table to the list at `place`; the tables in front of it are closed. -/
def extend (d : Document) (place : Place) : Option Document := do
  let d ← descend d .implied [] place.dropLast
  match d.get? place with
  | none => some (d.set place .series)
  | some .series => some (d.without place)
  | some _ => none

/-- The keys of the table at a place. -/
def keysAt (d : Document) (place : Place) : List String :=
  d.keys.filterMap fun p => if p.dropLast = place then p.getLast? else none

end Document

mutual

/-- What a value is in a document, unless a table in it breaks a rule. -/
def Value.node? : Value → Option Node
  | .scalar => some .plain
  | .list items => if areWellFormed items then some .plain else none
  | .table entries => (enterAll .empty entries).map fun d => .inline (d.keysAt [])

/-- Whether no table in some values breaks a rule. -/
def Value.areWellFormed : List Value → Bool
  | [] => true
  | v :: vs => v.node?.isSome && areWellFormed vs

/-- Puts entries into the table that a value is. -/
def Value.enterAll (d : Document) : List (Place × Value) → Option Document
  | [] => some d
  | (key, v) :: entries =>
    match v.node? with
    | none => none
    | some node => (d.enter [] key node).bind (enterAll · entries)

end

namespace Document

/-- What a statement makes of a document and the current table. -/
def add : Document × Place → Statement → Option (Document × Place)
  | (d, current), .entry key value => return (← d.enter current key (← value.node?), current)
  | (d, _), .header place => return (← d.head place, place)
  | (d, _), .element place => return (← d.extend place, place)

/-- The document of some statements, unless it is malformed. -/
def ofStatements? (ss : List Statement) : Option Document :=
  (ss.foldlM add (.empty, [])).map Prod.fst

end Document

end BeanStream.Manifest
