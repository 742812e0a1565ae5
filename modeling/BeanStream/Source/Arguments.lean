import BeanStream.Source.Token

/-!
# Argument lists

Between angle signs stand parameters or arguments, of which **lifetimes come first in print**,
whatever their order in the text. Each entry keeps the comma behind it, so a list whose last entry
is not printed last ends with a comma (`lifetimesFirst`).
-/

namespace BeanStream.Source

/-- An entry of a list. -/
structure Entry where
  isLifetime : Bool
  tokens : List Token
  /-- Whether a comma stands behind it. -/
  comma : Bool

/-- An entry with the comma behind it. -/
def Entry.print (e : Entry) : List Token := e.tokens ++ if e.comma then sign "," else []

/-- The entries of a list as they are printed. -/
def lifetimesFirst (entries : List Entry) : List Token :=
  let (lifetimes, others) := entries.partition Entry.isLifetime
  let between := if others.isEmpty || lifetimes.all Entry.comma then [] else sign ","
  lifetimes.flatMap Entry.print ++ between ++ others.flatMap Entry.print

end BeanStream.Source
