import BeanStream.Text.Hex
import BeanStream.Text.Identifier

/-!
# Literals

How far a literal reaches, and what a string stands for. A reader is given the text behind the
signs that open the literal and answers with the text behind the literal.

Escaped strings stand for something else than what is written: escapes name characters, the end
of a line is one character however it is written, and a backslash in front of it joins the line
with the next one. In verbatim strings every character stands for itself.
-/

namespace BeanStream.Source

/-! ### Strings -/

/-- What a character after a backslash stands for. -/
def shortEscape? : Char → Option Char
  | 'n' => some '\n'
  | 'r' => some '\r'
  | 't' => some '\t'
  | '\\' => some '\\'
  | '\'' => some '\''
  | '"' => some '"'
  | '0' => some '\x00'
  | _ => none

/-- Whether a character is left out at the start of a line that is joined with the one before. -/
def isIndent (c : Char) : Bool := c = ' ' || c = '\t' || c = '\n' || c = '\r'

private theorem length_dropWhile_le (p : Char → Bool) (cs : List Char) :
    (cs.dropWhile p).length ≤ cs.length :=
  (List.dropWhile_sublist p).length_le

/-- Reads an escaped string: what it stands for, and the text behind it. -/
def quoted? : List Char → Option (List Char × List Char)
  | [] => none
  | '"' :: rest => some ([], rest)
  | '\r' :: '\n' :: rest => do
    let (value, rest) ← quoted? rest
    return ('\n' :: value, rest)
  | '\r' :: _ => none
  | '\\' :: '\n' :: rest | '\\' :: '\r' :: '\n' :: rest => quoted? (rest.dropWhile isIndent)
  | '\\' :: 'x' :: a :: b :: rest => do
    let c ← Text.Hex.toChar? [a, b]
    let (value, rest) ← quoted? rest
    return (c :: value, rest)
  | '\\' :: 'u' :: '\x7b' :: rest => do
    let c ← Text.Hex.toChar? ((rest.takeWhile (· ≠ '\x7d')).filter (· ≠ '_'))
    let (value, rest) ← quoted? ((rest.dropWhile (· ≠ '\x7d')).drop 1)
    return (c :: value, rest)
  | '\\' :: c :: rest => do
    let c ← shortEscape? c
    let (value, rest) ← quoted? rest
    return (c :: value, rest)
  | c :: rest => do
    let (value, rest) ← quoted? rest
    return (c :: value, rest)
termination_by cs => cs.length
decreasing_by
  all_goals simp only [List.length_cons, List.length_drop]
  all_goals grind [length_dropWhile_le]

/-- The text behind an escaped string of bytes, which stands for no text. -/
def behindQuote? : List Char → Option (List Char)
  | [] => none
  | '"' :: rest => some rest
  | '\\' :: _ :: rest => behindQuote? rest
  | _ :: rest => behindQuote? rest

/-- Reads a verbatim string, which is ended by a quote and as many number signs as it was started
with. -/
def verbatim? (signs : Nat) : List Char → Option (List Char × List Char)
  | [] => none
  | c :: rest =>
    if c = '"' && rest.take signs = List.replicate signs '#' then some ([], rest.drop signs)
    else (verbatim? signs rest).map fun (value, rest) => (c :: value, rest)

/-- The text behind a character, unless no apostrophe ends it. -/
def behindCharacter? : List Char → Option (List Char)
  | '\\' :: _ :: rest =>
    match rest.dropWhile (· ≠ '\'') with
    | [] => none
    | _ :: rest => some rest
  | _ :: '\'' :: rest => some rest
  | _ => none

/-! ### Numbers -/

/-- Whether a character belongs to a row of decimal digits, which may be grouped. -/
def isDigitOrGroup (c : Char) : Bool := c.isDigit || c = '_'

/-- The text behind an exponent, if there is one: a letter, a sign if any, and digits. -/
def behindExponent? : List Char → Option (List Char)
  | 'e' :: rest | 'E' :: rest =>
    let rest := match rest.dropWhile (· = '_') with
      | '+' :: rest | '-' :: rest => rest
      | rest => rest
    let rest := rest.dropWhile (· = '_')
    -- Without digits the letter starts the name behind the number.
    if rest.head?.any Char.isDigit then some (rest.dropWhile isDigitOrGroup) else none
  | _ => none

/-- The text behind a number. A point belongs to it unless it starts a range or the name of
something that belongs to the number; an integer may have letters for digits. -/
def behindNumber (cs : List Char) : List Char :=
  let integer := cs.dropWhile Text.isIdentContinue
  match cs.dropWhile isDigitOrGroup with
  | '.' :: rest =>
    if rest.head?.any fun c => c = '.' || Text.isIdentStart c then integer
    else
      let fraction := rest.dropWhile isDigitOrGroup
      (behindExponent? fraction).getD fraction
  | rest => (behindExponent? rest).getD integer

/-- The text behind a literal with the name at its end, if it has one. -/
def behindSuffix (cs : List Char) : List Char :=
  match cs with
  | [] => []
  | c :: _ => if Text.isIdentStart c then cs.dropWhile Text.isIdentContinue else cs

end BeanStream.Source
