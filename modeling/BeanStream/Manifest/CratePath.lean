import BeanStream.Manifest.Section
import BeanStream.Text.Identifier

/-!
# Crate paths

The path under which a program reaches a crate, found from the dependencies that its manifest
declares. The dependencies proper are asked before those of its tests; in each of them the crate
**itself** comes before the **facades**, which stand in for the crates of the family. A crate
that is not found is taken to be reachable under its own name.

A path is made of identifiers; names that are none have no path (`CratePath.isWellFormed`).
-/

namespace BeanStream.Manifest

/-- A path of a crate: the crate that is depended on, and the module of it if it is a facade. -/
structure CratePath where
  root : String
  submodule : Option String := none
  deriving DecidableEq, Repr

namespace CratePath

/-- The names in a path. -/
def segments (p : CratePath) : List String := p.root :: p.submodule.toList

/-- A path as text. -/
def text (p : CratePath) : String := String.join (p.segments.map ("::" ++ ·))

/-- Whether a path is made of identifiers. -/
def isWellFormed (p : CratePath) : Bool := p.segments.all Text.isIdentifier

end CratePath

/-- The sections that declare dependencies, in the order in which they are asked. -/
def dependencySections : List String := ["dependencies", "dev-dependencies"]

/-- The crates that hold the family, in the order in which they are asked. -/
def facades : List String := ["stash_core", "stash"]

/-- The module of a facade that stands for a crate of the family. -/
def submoduleName? (name : String) : Option String :=
  ("stash_".toList.isPrefixOf? name.toList).map String.ofList

/-- The path of a crate among the names of a section. -/
def pathAmong? (declared : List String) (name : String) : Option CratePath :=
  if name ∈ declared then some { root := name }
  else do
    let submodule ← submoduleName? name
    let root ← facades.find? (· ∈ declared)
    return { root, submodule }

/-- The path of a crate. -/
def Document.cratePath (d : Document) (name : String) : CratePath :=
  (dependencySections.findSome? fun key =>
    (d.tableKeys? key).bind (pathAmong? · name)).getD { root := name }

/-- The path of the library itself. Without a manifest nothing is declared. -/
def libraryPath (d : Option Document) : List String :=
  ((d.getD .empty).cratePath "stash_bean").segments

/-- A crate that is depended on is reached under its own name. -/
theorem pathAmong?_of_mem {declared : List String} {name : String} (h : name ∈ declared) :
    pathAmong? declared name = some { root := name } := by
  simp [pathAmong?, h]

end BeanStream.Manifest
