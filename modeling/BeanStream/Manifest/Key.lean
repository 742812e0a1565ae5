import BeanStream.Text.Hex

/-!
# Keys of a manifest

A key names a place in a document: its parts lead there, with points between them and blanks
around them. A part is **bare** if it is made of the letters, digits and signs of names, else it
stands in quotes: in double ones with escapes, in single ones as it is. A quoted part may be empty.

How a part is written does not matter to the place it names, so `a.b`, `"a" . 'b'` and `"\x61".b`
are one key. A key is refused if it has more than `maxParts` parts.

Readers answer with what they have read and the text behind it.
-/

namespace BeanStream.Manifest

/-- A place in a document: the keys that lead to it. -/
abbrev Place := List String

namespace Key

/-- The greatest number of parts of a key. -/
def maxParts : Nat := 80

/-- Whether a character needs no quotes. -/
def isBare (c : Char) : Bool := c.isAlphanum || c = '_' || c = '-'

/-- Whether a character may separate a part from the signs around it. -/
def isBlank (c : Char) : Bool := c = ' ' || c = '\t'

/-- Whether a character may stand in quotes and in comments: of the controls, only the
tabulator. -/
def isQuotable (c : Char) : Bool := c = '\t' || (' ' ≤ c && c ≠ '\x7f')

/-! ### Parts -/

/-- What a character after a backslash stands for. -/
def shortEscape? : Char → Option Char
  | 'b' => some '\x08'
  | 't' => some '\t'
  | 'n' => some '\n'
  | 'f' => some '\x0c'
  | 'r' => some '\r'
  | 'e' => some '\x1b'
  | '"' => some '"'
  | '\\' => some '\\'
  | _ => none

/-- Reads an escape behind its backslash. Digits that are missing at the end of the text are not
asked for, since the quote behind them is missing as well. -/
def escape? : List Char → Option (Char × List Char)
  | [] => none
  | 'x' :: rest => do return (← Text.Hex.toChar? (rest.take 2), rest.drop 2)
  | 'u' :: rest => do return (← Text.Hex.toChar? (rest.take 4), rest.drop 4)
  | 'U' :: rest => do return (← Text.Hex.toChar? (rest.take 8), rest.drop 8)
  | c :: rest => do return (← shortEscape? c, rest)

/-- An escape is not empty. -/
theorem length_of_escape? {cs rest : List Char} {c : Char} (h : escape? cs = some (c, rest)) :
    rest.length < cs.length := by
  unfold escape? at h
  split at h
  · cases h
  all_goals
    simp only [Option.bind_eq_bind, Option.bind_eq_some_iff, Option.pure_def, Option.some.injEq,
      Prod.mk.injEq] at h
    obtain ⟨_, _, -, rfl⟩ := h
    grind

/-- Reads a part in double quotes behind the first one. -/
def escaped? : List Char → Option (List Char × List Char)
  | [] => none
  | '"' :: rest => some ([], rest)
  | '\\' :: cs =>
    match _ : escape? cs with
    | none => none
    | some (c, rest) => (escaped? rest).map fun (value, rest) => (c :: value, rest)
  | c :: rest =>
    if isQuotable c then (escaped? rest).map fun (value, rest) => (c :: value, rest) else none
termination_by cs => cs.length
decreasing_by
  · have := length_of_escape? ‹_›
    grind
  · exact Nat.lt_succ_self rest.length

/-- Reads a part in single quotes behind the first one. -/
def literal? : List Char → Option (List Char × List Char)
  | [] => none
  | '\'' :: rest => some ([], rest)
  | c :: rest =>
    if isQuotable c then (literal? rest).map fun (value, rest) => (c :: value, rest) else none

/-- Reads a part: what it stands for, and the text behind it. -/
def part? : List Char → Option (List Char × List Char)
  | '"' :: rest => escaped? rest
  | '\'' :: rest => literal? rest
  | cs =>
    let bare := cs.takeWhile isBare
    if bare.isEmpty then none else some (bare, cs.dropWhile isBare)

/-! ### Keys -/

/-- Reads parts, with the blanks behind them. A step that reads nothing is refused. -/
def parts? (cs : List Char) : Option (Place × List Char) := do
  let (part, rest) ← part? (cs.dropWhile isBlank)
  match rest.dropWhile isBlank with
  | '.' :: more =>
    if _ : more.length < cs.length then
      (parts? more).map fun (place, rest) => (String.ofList part :: place, rest)
    else none
  | rest => some ([String.ofList part], rest)
termination_by cs.length

end Key

/-- Reads a key, with the blanks around it. -/
def key? (cs : List Char) : Option (Place × List Char) := do
  let (place, rest) ← Key.parts? cs
  if place.length ≤ Key.maxParts then some (place, rest) else none

end BeanStream.Manifest
