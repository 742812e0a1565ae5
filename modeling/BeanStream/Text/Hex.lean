/-!
# Hexadecimal text

Numbers and byte strings in hexadecimal digits, two digits a byte. Lower-case letters are written,
and letters of either case are read.
-/

namespace BeanStream.Text

/-- A number in hexadecimal digits, without leading zeros. -/
def hexDigits (n : Nat) : String := String.ofList (Nat.toDigits 16 n)

namespace Hex

/-- A number in at least `width` digits. -/
def ofNat (width n : Nat) : String :=
  "".pushn '0' (width - (hexDigits n).length) ++ hexDigits n

/-- A byte string. -/
def ofBytes (bs : List UInt8) : String := String.join (bs.map fun b => ofNat 2 b.toNat)

/-- The value of a digit. -/
def digit? (c : Char) : Option Nat :=
  if '0' ≤ c ∧ c ≤ '9' then some (c.toNat - '0'.toNat)
  else if 'a' ≤ c ∧ c ≤ 'f' then some (c.toNat - 'a'.toNat + 10)
  else if 'A' ≤ c ∧ c ≤ 'F' then some (c.toNat - 'A'.toNat + 10)
  else none

/-- The number that digits stand for. -/
def toNat? (s : String) : Option Nat :=
  s.toList.foldlM (fun n c => (digit? c).map (n * 16 + ·)) 0

/-- The character with the number that digits stand for. -/
def toChar? (digits : List Char) : Option Char := do
  let n ← toNat? (String.ofList digits)
  if n.isValidChar then some (Char.ofNat n) else none

/-- The bytes that pairs of digits stand for. -/
def pairs? : List Char → Option (List UInt8)
  | [] => some []
  | [_] => none
  | high :: low :: rest => do
    let h ← digit? high
    let l ← digit? low
    return UInt8.ofNat (h * 16 + l) :: (← pairs? rest)

/-- The byte string that digits stand for. -/
def toBytes? (s : String) : Option (List UInt8) := pairs? s.toList

end Hex

end BeanStream.Text
