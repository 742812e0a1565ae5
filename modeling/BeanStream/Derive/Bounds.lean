import BeanStream.Derive.Item
import BeanStream.Source.Arguments

/-!
# Parameters and bounds of an implementation

An implementation repeats the parameters of the type and **adds the bounds that every value
needs**: with a type parameter, the type must be known at run time and shared between threads;
with lifetimes alone, it must not borrow. The own predicates of the type follow, then one for
each field type that **mentions a type parameter at any depth** (`beanBounds`).

Lifetimes come first in a parameter list, as in every list between angle signs.
-/

namespace BeanStream.Derive

open Source

/-! ### Parameter lists -/

namespace Param

/-- A name with the bounds on it, if there are any. -/
private def bounded (name : List Token) (bounds : List (List Token)) : List Token :=
  if bounds.isEmpty then name else name ++ sign ":" ++ separated "+" bounds

/-- A parameter as an implementation declares it. -/
def declared : Param → List Token
  | .lifetime label bounds => bounded (Source.lifetime label) bounds
  | .type name bounds => bounded (words [name]) bounds
  | .const name kind => words ["const", name] ++ sign ":" ++ kind

/-- A parameter as an argument of the type. -/
def applied : Param → List Token
  | .lifetime label _ => Source.lifetime label
  | .type name _ | .const name _ => words [name]

end Param

/-- Parameters as entries of a list: all but the last one have a comma. -/
def entries (shown : Param → List Token) : List Param → List Entry
  | [] => []
  | [p] => [⟨p.isLifetime, shown p, false⟩]
  | p :: ps => ⟨p.isLifetime, shown p, true⟩ :: entries shown ps

/-- A parameter list, or nothing if there are no parameters. -/
def parameterList (shown : Param → List Token) (params : List Param) : List Token :=
  if params.isEmpty then [] else angled (lifetimesFirst (entries shown params))

/-! ### Bounds -/

/-- What every value needs of its type. -/
def ownBounds (g : Generics) : List (List Token) :=
  if !g.typeNames.isEmpty then
    [words ["Self"] ++ sign ":" ++ separated "+"
      [absolutePath ["core", "any", "Any"], absolutePath ["core", "marker", "Send"],
        absolutePath ["core", "marker", "Sync"]]]
  else if g.params.any Param.isLifetime then [words ["Self"] ++ sign ":" ++ lifetime "static"]
  else []

/-- The bounds on the field types that depend on a type parameter. -/
def fieldBounds (g : Generics) (trait : List Token) (types : List (List Token)) :
    List (List Token) :=
  (types.filter (mentions g.typeNames)).map (· ++ sign ":" ++ trait)

/-- The bounds of an implementation of values. -/
def valueBounds (g : Generics) : List (List Token) := ownBounds g ++ g.predicates

/-- The bounds of an implementation of beans, which needs `trait` of the property types. -/
def beanBounds (g : Generics) (trait : List Token) (types : List (List Token)) :
    List (List Token) :=
  valueBounds g ++ fieldBounds g trait types

/-- The clause that states bounds, or nothing if there are none. -/
def boundsClause (bounds : List (List Token)) : List Token :=
  if bounds.isEmpty then [] else words ["where"] ++ separated "," bounds

/-- The clause is empty exactly if there are no bounds. -/
theorem boundsClause_eq_nil_iff {bounds : List (List Token)} :
    boundsClause bounds = [] ↔ bounds = [] := by
  cases bounds <;> simp [boundsClause, words]

end BeanStream.Derive
