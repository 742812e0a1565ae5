/-!
# Moments

Dates and times in a manifest: a date, a time, or both with a letter or a blank between them. Only
a date with a time may have an **offset**, the difference of the clock from the universal one.
Seconds may be left out, and the last minute of a day may have one more than sixty of them.

**A date is one of the calendar** (`daysIn`), so there is no thirtieth of February.
-/

namespace BeanStream.Manifest.Moment

/-- Reads a number of `width` digits from `least` to `greatest`. -/
def number? (width least greatest : Nat) (cs : List Char) : Option (Nat × List Char) :=
  let digits := cs.take width
  let n := Nat.ofDigitChars 10 digits 0
  if digits.length = width && digits.all Char.isDigit && least ≤ n && n ≤ greatest then
    some (n, cs.drop width)
  else none

/-- The text behind a sign. -/
def behind? (sign : Char) : List Char → Option (List Char)
  | [] => none
  | c :: rest => if c = sign then some rest else none

/-- The number of days in a month. -/
def daysIn (year month : Nat) : Nat :=
  let leap := year % 4 = 0 && (year % 100 ≠ 0 || year % 400 = 0)
  if month = 2 then if leap then 29 else 28
  else if month ∈ [4, 6, 9, 11] then 30 else 31

/-- The text behind a date. -/
def behindDate? (cs : List Char) : Option (List Char) := do
  let (year, rest) ← number? 4 0 9999 cs
  let (month, rest) ← number? 2 1 12 (← behind? '-' rest)
  let (_, rest) ← number? 2 1 (daysIn year month) (← behind? '-' rest)
  return rest

/-- The text behind hours and minutes. -/
def behindClock? (cs : List Char) : Option (List Char) := do
  let (_, rest) ← number? 2 0 23 cs
  let (_, rest) ← number? 2 0 59 (← behind? ':' rest)
  return rest

/-- The text behind a time of the day. -/
def behindTime? (cs : List Char) : Option (List Char) := do
  let rest ← behindClock? cs
  let some rest := behind? ':' rest | return rest
  let (_, rest) ← number? 2 0 60 rest
  match rest with
  | '.' :: fraction =>
    if fraction.head?.any Char.isDigit then return fraction.dropWhile Char.isDigit else none
  | rest => return rest

/-- Whether a text is empty or an offset. -/
def isOffset : List Char → Bool
  | [] | ['Z'] | ['z'] => true
  | '+' :: rest | '-' :: rest => behindClock? rest = some []
  | _ => false

end BeanStream.Manifest.Moment

namespace BeanStream.Manifest

/-- Whether a text is a date, a time, or both. -/
def isMoment (cs : List Char) : Bool :=
  match Moment.behindDate? cs with
  | none => Moment.behindTime? cs = some []
  | some [] => true
  | some (c :: rest) => ['T', 't', ' '].contains c && (Moment.behindTime? rest).any Moment.isOffset

end BeanStream.Manifest
