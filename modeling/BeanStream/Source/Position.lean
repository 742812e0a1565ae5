import BeanStream.Source.Token
import BeanStream.Text.Hex

/-!
# Positions

The fields of a tuple are named by their positions. A position is written as an integer of any
radix and **printed as a decimal number** without needless zeros. Two positions in a row, with the
point between them, look like a decimal fraction; they are told apart, so that `x.0.1` is printed
as `x . 0 . 1`.
-/

namespace BeanStream.Source

/-- The number with some digits, grouped by underscores. -/
private def number? (radix : Nat) (cs : List Char) : Option Nat :=
  let digits := cs.filter (· ≠ '_')
  if digits.isEmpty then none
  else digits.foldlM (fun n c => do
    let d ← Text.Hex.digit? c
    if d < radix then some (n * radix + d) else none) 0

/-- The number that an integer literal stands for. -/
def position? : List Char → Option Nat
  | '0' :: 'x' :: cs => number? 16 cs
  | '0' :: 'o' :: cs => number? 8 cs
  | '0' :: 'b' :: cs => number? 2 cs
  | cs => number? 10 cs

/-- The tokens that print some positions, with points between them. -/
def positionTokens (ns : List Nat) : List Token :=
  separated "." (ns.map fun n => [.literal (toString n) none])

/-- The positions that a literal stands for, and whether a point stands behind them. -/
def positions? (literal : String) : Option (List Nat × Bool) := do
  let parts := literal.toList.splitOn '.'
  let endsOpen := parts.length > 1 && parts.getLast? = some []
  let ns ← (if endsOpen then parts.dropLast else parts).mapM position?
  return (ns, endsOpen)

end BeanStream.Source
