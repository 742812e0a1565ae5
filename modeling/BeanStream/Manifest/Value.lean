import BeanStream.Manifest.Key
import BeanStream.Manifest.Moment
import BeanStream.Manifest.Number

/-!
# Values of a manifest

A value is a **scalar**, a list of values, or a table that is written as a value, with entries
between braces. Of a scalar only the form matters here: it is a string, a number, a moment, or one
of the words for truth.

Between the items of lists and tables stand commas; one may follow the last item, and blanks, ends
of lines and comments may stand around each item (`items?`). Lists and tables are nested at most
`maxDepth` deep, which is also why reading a value ends.
-/

namespace BeanStream.Manifest

/-- A value. -/
inductive Value where
  | scalar
  | list (items : List Value)
  | table (entries : List (Place × Value))

namespace Value

/-- The greatest depth of lists and tables. -/
def maxDepth : Nat := 80

/-! ### Between items -/

/-- The text behind blanks, ends of lines and comments. A comment ends in front of a character that
it cannot hold, and nothing else can start with such a character. -/
def behindFiller (inComment : Bool) : List Char → List Char
  | [] => []
  | '\n' :: rest | '\r' :: '\n' :: rest => behindFiller false rest
  | c :: rest =>
    if inComment then if Key.isQuotable c then behindFiller true rest else c :: rest
    else if c = '#' then behindFiller true rest
    else if Key.isBlank c then behindFiller false rest
    else c :: rest

/-- Reads items between commas up to the sign `close`. A step that reads nothing is refused. -/
def items? {α : Type} (close : Char) (item? : List Char → Option (α × List Char))
    (cs : List Char) : Option (List α × List Char) :=
  match behindFiller false cs with
  | [] => none
  | c :: rest =>
    if c = close then some ([], rest)
    else do
      let (a, rest) ← item? (c :: rest)
      match behindFiller false rest with
      | [] => none
      | sign :: more =>
        if sign = close then some ([a], more)
        else if _ : sign = ',' ∧ more.length < cs.length then
          (items? close item? more).map fun (as, rest) => (a :: as, rest)
        else none
termination_by cs.length

/-! ### Scalars -/

/-- The text behind blanks and ends of lines. -/
def behindBlankLines : List Char → List Char
  | [] => []
  | '\n' :: rest | '\r' :: '\n' :: rest => behindBlankLines rest
  | c :: rest => if Key.isBlank c then behindBlankLines rest else c :: rest

/-- Whether a text starts with the end of a line. -/
def endsLine : List Char → Bool
  | '\n' :: _ | '\r' :: '\n' :: _ => true
  | _ => false

/-- The text behind a string of several lines and the three quotes that end it. In front of them
the string may hold two further quotes. A step that reads nothing is refused. -/
def behindLines? (quote : Char) : List Char → Option (List Char)
  | [] => none
  | '\r' :: '\n' :: rest => behindLines? quote rest
  | c :: rest =>
    if c = quote && rest.take 2 = [quote, quote] then
      let more := rest.drop 2
      some (more.drop ((more.take 2).takeWhile (· = quote)).length)
    else if c = '\\' && quote = '"' then
      -- A backslash at the end of a line takes the blank lines behind it away.
      let joined := endsLine (rest.dropWhile Key.isBlank)
      let more := if joined then some (behindBlankLines rest) else (Key.escape? rest).map Prod.snd
      match more with
      | none => none
      | some more => if _ : more.length ≤ rest.length then behindLines? quote more else none
    else if c = '\n' || Key.isQuotable c then behindLines? quote rest
    else none
termination_by cs => cs.length

/-- The text behind a string. -/
def behindString? : List Char → Option (List Char)
  | '"' :: '"' :: '"' :: rest => behindLines? '"' rest
  | '\'' :: '\'' :: '\'' :: rest => behindLines? '\'' rest
  | '"' :: rest => (Key.escaped? rest).map Prod.snd
  | '\'' :: rest => (Key.literal? rest).map Prod.snd
  | _ => none

/-- Whether a character may belong to a word, a number or a moment. -/
def isPlain (c : Char) : Bool := Key.isBlank c || c.isAlphanum || "+-_.:".toList.contains c

/-- Whether a text is a scalar other than a string. -/
def isWord (cs : List Char) : Bool :=
  cs = "true".toList || cs = "false".toList || isNumber cs || isMoment cs

/-- The text behind a scalar, which is a string or reaches to the next sign of another kind. -/
def behindScalar? (cs : List Char) : Option (List Char) :=
  let plain := cs.takeWhile isPlain
  let word := (plain.reverse.dropWhile Key.isBlank).reverse
  if word.isEmpty then behindString? cs
  else if isWord word then some (cs.dropWhile isPlain) else none

/-! ### Values -/

/-- Reads an entry: a key, an equality sign, and what `value?` reads. -/
def keyValue? (value? : List Char → Option (Value × List Char)) (cs : List Char) :
    Option ((Place × Value) × List Char) := do
  let (key, rest) ← key? cs
  match rest with
  | '=' :: rest =>
    let (value, rest) ← value? (rest.dropWhile Key.isBlank)
    return ((key, value), rest)
  | _ => none

/-- Reads a value that holds lists and tables up to a depth. -/
def readWithin : (depth : Nat) → List Char → Option (Value × List Char)
  | depth + 1, '[' :: rest =>
    (items? ']' (readWithin depth) rest).map fun (items, rest) => (.list items, rest)
  | depth + 1, '\x7b' :: rest =>
    (items? '\x7d' (keyValue? (readWithin depth)) rest).map fun (entries, rest) =>
      (.table entries, rest)
  | _, cs => (behindScalar? cs).map fun rest => (.scalar, rest)

/-- Reads a value. -/
def read? (cs : List Char) : Option (Value × List Char) := readWithin maxDepth cs

end Value

end BeanStream.Manifest
