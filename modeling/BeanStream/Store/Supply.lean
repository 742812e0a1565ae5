import BeanStream.Store

/-!
# Queries of suppliers

A query asks a supplier for its value. Counted suppliers answer **by the number of the query**;
a mapped one asks its source first and makes something of the value, or of nothing **nothing**.
-/

namespace BeanStream

/-- What a transform makes of a value. -/
def Transform.apply (decls : Declarations) : Transform → Value → Option Value
  | .keep, v => some v
  | .drop, _ => none
  | .double, .scalar (.int .i64 bits) => some (.scalar (.int .i64 (bits + bits)))
  | .double, _ => none
  | .wrap, v => some (.optional .shared (some (.shared v)))
  | .typePath, v => some (.scalar (.str (v.typePath decls)))

namespace Store

/-- The number of a counter, which moves on. -/
def count (counter : Nat) : StoreM Nat := modifyGet fun s =>
  let n := (s.counters.get? counter).getD 0
  (n, { s with counters := s.counters.set counter (n + 1) })

end Store

namespace Supply

/-- The answer of a supplier to a query. -/
def query (decls : Declarations) : Supply → StoreM (Option Value)
  | .fixed v => return v
  | .reading box => return (← get).box box
  | .counting counter => return some (.ofCount (← Store.count counter))
  | .alternating counter v => return if (← Store.count counter) % 2 = 0 then none else some v
  | .panicking => throw .panic
  | .mapped source f => return (← source.query decls).bind (f.apply decls)

/-- The answer of a producer: a query that yields nothing produces the unit value. -/
def produce (decls : Declarations) (supply : Supply) : StoreM Value :=
  return (← supply.query decls).getD .unit

end Supply

end BeanStream
