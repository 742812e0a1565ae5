import BeanStream.Derive.Attribute

/-!
# Items

The declaration of a type, as far as deriving looks at it: its name, its generic parameters with
the predicates on them, its attributes, and the fields if it is a struct. Types, bounds and
predicates are tokens in the order in which they are printed (`Grammar.typeTokens?`).
-/

namespace BeanStream.Derive

open Source

/-- A generic parameter. Defaults are left out, since implementations cannot repeat them. -/
inductive Param where
  | lifetime (label : String) (bounds : List (List Token))
  | type (name : String) (bounds : List (List Token))
  | const (name : String) (type : List Token)

namespace Param

/-- Whether a parameter is a lifetime. -/
def isLifetime : Param → Bool
  | .lifetime .. => true
  | _ => false

/-- The name of a type parameter. -/
def typeName? : Param → Option String
  | .type name _ => some name
  | _ => none

end Param

/-- The generic part of a declaration. -/
structure Generics where
  params : List Param := []
  predicates : List (List Token) := []

namespace Generics

/-- The names of the type parameters. -/
def typeNames (g : Generics) : List String := g.params.filterMap Param.typeName?

/-- Whether the instances of a declaration are different types: lifetimes do not count. -/
def isFamily (g : Generics) : Bool := g.params.any (!·.isLifetime)

end Generics

/-- A field as declared; those of a tuple have no name. -/
structure FieldDeclaration where
  name : Option String
  type : List Token
  attributes : List Attribute := []

/-- What a declaration declares. -/
inductive Body where
  /-- A struct with its fields, which may be named, numbered or missing. -/
  | struct (fields : List FieldDeclaration)
  | enumeration
  | union

/-- A declaration. -/
structure Item where
  name : String
  attributes : List Attribute := []
  generics : Generics := {}
  body : Body

/-- An identifier without the mark that makes a name of a keyword. -/
def plainName (name : String) : String :=
  match name.toList with
  | 'r' :: '#' :: rest => String.ofList rest
  | _ => name

end BeanStream.Derive
