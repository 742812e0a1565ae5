import BeanStream.Source.Comment
import BeanStream.Source.Literal

/-!
# Reading tokens

Program text is read in two steps. The first cuts it into **lexemes**: brackets, which may stand
in any order, and whole tokens; blanks and comments between them are left out. The second
**nests** the lexemes between matching brackets; its state is the stack of the groups that are
still open, innermost first, and text is refused unless every bracket is closed by its own kind.

A mark is joined if another mark follows it at once. An apostrophe in front of an identifier is a
joined mark, unless a second apostrophe makes both a character literal.
-/

namespace BeanStream.Source

/-- What the first step reads. -/
inductive Lexeme where
  | token (t : Token)
  | opening (d : Delimiter)
  | closing (d : Delimiter)

/-! ### Lexemes -/

/-- The marks. -/
def isMark (c : Char) : Bool := "~!@#$%^&*-=+|;:,<.>/?'".toList.contains c

/-- A mark and the text behind it. -/
private def markTo (c : Char) (rest : List Char) : Lexeme × List Char :=
  (.token (.mark c (rest.head?.any isMark && !startsComment rest)), rest)

/-- A literal that ends in front of `rest`, or with the name that `rest` starts with. -/
private def literalTo (cs rest : List Char) (value : Option String) : Lexeme × List Char :=
  let rest := behindSuffix rest
  (.token (.literal (String.ofList (cs.take (cs.length - rest.length))) value), rest)

/-- A string behind its opening quote. -/
private def stringTo (cs body : List Char) : Option (Lexeme × List Char) :=
  (quoted? body).map fun (value, rest) => literalTo cs rest (some (String.ofList value))

/-- A string of bytes behind its opening quote. -/
private def bytesTo (cs body : List Char) : Option (Lexeme × List Char) :=
  (behindQuote? body).map fun rest => literalTo cs rest none

/-- A verbatim string behind the letters in front of it. -/
private def verbatimTo (cs body : List Char) (standsFor : Bool) : Option (Lexeme × List Char) := do
  let signs := (body.takeWhile (· = '#')).length
  match body.drop signs with
  | '"' :: rest =>
    let (value, rest) ← verbatim? signs rest
    return literalTo cs rest (if standsFor then some (String.ofList value) else none)
  | _ => none

/-- An identifier. -/
private def identTo (cs : List Char) : Lexeme × List Char :=
  (.token (.ident (String.ofList (cs.takeWhile Text.isIdentContinue))),
    cs.dropWhile Text.isIdentContinue)

/-- A character behind its opening apostrophe, or a mark. -/
private def apostropheTo (cs body : List Char) : Option (Lexeme × List Char) :=
  match behindCharacter? body with
  | some rest => some (literalTo cs rest none)
  | none =>
    if body.head?.any Text.isIdentStart then some (.token (.mark '\'' true), body) else none

/-- Reads one lexeme of a text that starts with neither a blank nor a comment. -/
def lexeme? (cs : List Char) : Option (Lexeme × List Char) :=
  match cs with
  | [] => none
  | '(' :: rest => some (.opening .parenthesis, rest)
  | ')' :: rest => some (.closing .parenthesis, rest)
  | '[' :: rest => some (.opening .bracket, rest)
  | ']' :: rest => some (.closing .bracket, rest)
  | '\x7b' :: rest => some (.opening .brace, rest)
  | '\x7d' :: rest => some (.closing .brace, rest)
  | '"' :: rest => stringTo cs rest
  | '\'' :: rest => apostropheTo cs rest
  -- Letters in front of a quote belong to the literal.
  | 'b' :: '\'' :: rest => apostropheTo cs rest
  | 'b' :: '"' :: rest | 'c' :: '"' :: rest => bytesTo cs rest
  | 'r' :: '"' :: _ => verbatimTo cs cs.tail true
  | 'b' :: 'r' :: '"' :: rest | 'c' :: 'r' :: '"' :: rest => verbatimTo cs ('"' :: rest) false
  | 'b' :: 'r' :: '#' :: rest | 'c' :: 'r' :: '#' :: rest => verbatimTo cs ('#' :: rest) false
  | 'r' :: '#' :: c :: rest =>
    -- The number sign makes a name of a keyword, unless it is the first one of a verbatim string.
    if Text.isIdentStart c then
      let more := (c :: rest).takeWhile Text.isIdentContinue
      some (.token (.ident ("r#" ++ String.ofList more)),
        (c :: rest).dropWhile Text.isIdentContinue)
    else verbatimTo cs cs.tail true
  | c :: rest =>
    if Text.isIdentStart c then some (identTo cs)
    else if c.isDigit then some (literalTo cs (behindNumber cs) none)
    else if isMark c then some (markTo c rest)
    else none

/-- Reads a comment as the tokens it stands for, or one lexeme. -/
def piece? (cs : List Char) : Option (List Lexeme × List Char) :=
  if startsComment cs then (comment? cs).map fun (ts, rest) => (ts.map .token, rest)
  else (lexeme? cs).map fun (l, rest) => ([l], rest)

/-- Cuts a text into lexemes. A step that reads nothing is refused. -/
def lexemes? : List Char → Option (List Lexeme)
  | [] => some []
  | c :: cs =>
    if isBlank c then lexemes? cs
    else match piece? (c :: cs) with
      | none => none
      | some (ls, rest) =>
        if _ : rest.length < (c :: cs).length then (lexemes? rest).map (ls ++ ·) else none
termination_by cs => cs.length
decreasing_by
  · exact Nat.lt_succ_self cs.length
  · assumption

/-! ### Nesting -/

/-- The groups that are open, innermost first: the bracket that opened each, and the tokens in
front of it, last one first. -/
abbrev Open := List (Delimiter × List Token)

/-- Puts lexemes between their brackets. `before` holds the tokens that have been read in the
innermost open group, last one first. -/
def nest? : List Lexeme → Open → (before : List Token) → Option (List Token)
  | [], [], before => some before.reverse
  | [], _ :: _, _ => none
  | .token t :: ls, stack, before => nest? ls stack (t :: before)
  | .opening d :: ls, stack, before => nest? ls ((d, before) :: stack) []
  | .closing d :: ls, (d', outer) :: stack, before =>
    if d = d' then nest? ls stack (.group d before.reverse :: outer) else none
  | .closing _ :: _, [], _ => none

/-- The tokens of a text. -/
def tokens? (s : String) : Option (List Token) := do nest? (← lexemes? s.toList) [] []

end BeanStream.Source
