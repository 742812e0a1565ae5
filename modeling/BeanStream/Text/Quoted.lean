import BeanStream.Text.CharClass
import BeanStream.Text.Hex

/-!
# Quoted text

A text between double quotes, for diagnostics. A character stands for itself unless it would
be **misread** (the quote and the backslash), is a control character with a **short escape**,
has **no glyph**, or **attaches** to the character before it; the last two are written as
their code point in hexadecimal between braces.
-/

namespace BeanStream.Text

/-- A character as its code point. -/
def codePoint (c : Char) : String := "\\u\x7b" ++ hexDigits c.toNat ++ "\x7d"

/-- A character as it stands in a quoted text. -/
def quoteChar (c : Char) : String :=
  if c = '"' then "\\\""
  else if c = '\\' then "\\\\"
  else if ' ' ≤ c && c ≤ '~' then c.toString
  else if c = '\x00' then "\\0"
  else if c = '\t' then "\\t"
  else if c = '\r' then "\\r"
  else if c = '\n' then "\\n"
  else if isCombining c || isUnprintable c then codePoint c
  else c.toString

/-- A text between double quotes. -/
def quote (s : String) : String := "\"" ++ String.join (s.toList.map quoteChar) ++ "\""

end BeanStream.Text
