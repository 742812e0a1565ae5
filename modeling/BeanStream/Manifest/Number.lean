import BeanStream.Text.Hex

/-!
# Numbers

Numbers in a manifest: integers in four radices, and decimal fractions. Digits may be grouped by
underscores, each of them **between two digits** (`digits?`), and a decimal number does not start
with a needless zero. Integers have to fit into 64 bits with a sign, and fractions must not be so
large that the nearest number of double precision is infinite (`isFinite`).
-/

namespace BeanStream.Manifest.Number

-- Powers of numbers are those of the core library, whatever else is imported.
attribute [local instance (2000)] instPowNat

/-- The value of a digit in a radix up to sixteen. -/
def digit? (radix : Nat) (c : Char) : Option Nat := (Text.Hex.digit? c).filter (· < radix)

/-- The values of one digit or more, which may be grouped. -/
def digits? (radix : Nat) : List Char → Option (List Nat)
  | [] => none
  | [c] => do return [← digit? radix c]
  | c :: '_' :: cs => do return (← digit? radix c) :: (← digits? radix cs)
  | c :: cs => do return (← digit? radix c) :: (← digits? radix cs)

/-- The number with some digits. -/
def ofDigits (radix : Nat) (ds : List Nat) : Nat := ds.foldl (· * radix + ·) 0

/-- The digits of a decimal number without a sign. -/
def decimal? (cs : List Char) : Option (List Nat) :=
  (digits? 10 cs).filter fun ds => ds.length = 1 || ds.head? ≠ some 0

/-- A text without the sign in front of it. -/
def unsigned : List Char → List Char
  | '+' :: cs | '-' :: cs => cs
  | cs => cs

/-! ### Integers -/

/-- The size from which on integers do not fit. -/
def integerBound : Nat := 2 ^ (63 : Nat)

/-- Whether a text is an integer. Radices other than ten have a letter and no sign. -/
def isInteger : List Char → Bool
  | '0' :: 'x' :: cs => (digits? 16 cs).any (ofDigits 16 · < integerBound)
  | '0' :: 'o' :: cs => (digits? 8 cs).any (ofDigits 8 · < integerBound)
  | '0' :: 'b' :: cs => (digits? 2 cs).any (ofDigits 2 · < integerBound)
  | '-' :: cs => (decimal? cs).any (ofDigits 10 · ≤ integerBound)
  | cs => (decimal? (unsigned cs)).any (ofDigits 10 · < integerBound)

/-! ### Fractions -/

/-- The least number that is nearer to infinity than to a number of double precision, or as near:
it lies in the middle between the greatest such number and the next power of two. -/
def infinityBound : Nat := 2 ^ (1024 : Nat) - 2 ^ (970 : Nat)

/-- Whether the number with some digits, times a power of ten, is below the bound. Only if it has
as many places as the bound has, 309, it needs to be computed. -/
def isFinite (ds : List Nat) (exponent : Int) : Bool :=
  let ds := ds.dropWhile (· = 0)
  let places : Int := ds.length + exponent
  ds.isEmpty || places < 309 ||
    (places = 309 && ofDigits 10 ds * 10 ^ exponent.toNat < infinityBound * 10 ^ (-exponent).toNat)

/-- Whether a character belongs to grouped decimal digits. -/
def isDigitOrGroup (c : Char) : Bool := c.isDigit || c = '_'

/-- The exponent that a text is. No text is the exponent zero. -/
def exponent? : List Char → Option Int
  | [] => some 0
  | 'e' :: '-' :: cs | 'E' :: '-' :: cs => (digits? 10 cs).map fun ds => -(ofDigits 10 ds : Int)
  | 'e' :: cs | 'E' :: cs => (digits? 10 (unsigned cs)).map fun ds => (ofDigits 10 ds : Int)
  | _ => none

/-- Whether a text without a sign is a decimal fraction: it has a point, an exponent, or both. -/
def isFraction (cs : List Char) : Bool :=
  let read : Option Bool := do
    let integer ← decimal? (cs.takeWhile isDigitOrGroup)
    match cs.dropWhile isDigitOrGroup with
    | [] => none
    | '.' :: rest =>
      let fraction ← digits? 10 (rest.takeWhile isDigitOrGroup)
      let exponent ← exponent? (rest.dropWhile isDigitOrGroup)
      return isFinite (integer ++ fraction) (exponent - fraction.length)
    | rest => return isFinite integer (← exponent? rest)
  read.getD false

/-- Whether a text stands for a number that is infinite or none at all. -/
def isSpecial (cs : List Char) : Bool := cs = "inf".toList || cs = "nan".toList

end BeanStream.Manifest.Number

namespace BeanStream.Manifest

/-- Whether a text is a number. -/
def isNumber (cs : List Char) : Bool :=
  Number.isInteger cs || Number.isFraction (Number.unsigned cs) ||
    Number.isSpecial (Number.unsigned cs)

end BeanStream.Manifest
