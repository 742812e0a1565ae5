import BeanStream.Source.Arguments
import BeanStream.Source.Keyword
import BeanStream.Source.Position

/-!
# Rules of a grammar

A rule says which tokens a phrase is made of, and how they are printed. Rules are data: sequences,
ordered choices and repetitions of signs and words, of bracketed parts, and of further phrases, for
which `Phrase` holds the names. A grammar gives a rule to each phrase.

Reading a rule answers with the printed tokens and the ones that are left (`Rule.read?`). A choice
takes the first rule that can be read and never comes back to it. **All that is printed otherwise
than it is written is said in the rules**: signs are printed with their marks joined and free of the
mark behind them, lists between angle signs with their lifetimes first, and some parts as they are
written or not at all.

Rules refer to each other through phrases without an end, so reading is given a bound on how deep
they are nested. A repetition stops where a step reads nothing.
-/

namespace BeanStream.Grammar

open Source (Token Delimiter Entry)

/-- A rule of a grammar. -/
inductive Rule (Phrase : Type) where
  | nothing
  /-- Marks next to each other, all but the last of them joined. -/
  | sign (text : String)
  | word (text : String)
  /-- A word that is no keyword. -/
  | name
  | lifetime
  | literal
  /-- A row of positions, with a point behind them or without one. -/
  | position (endsOpen : Bool)
  /-- Any token. -/
  | token
  /-- A bracketed part, all of which has to be read. -/
  | group (delimiter : Delimiter) (body : Rule Phrase)
  | phrase (p : Phrase)
  | both (first second : Rule Phrase)
  /-- The second rule, if the first one cannot be read. -/
  | either (first second : Rule Phrase)
  /-- Nothing, if the rule cannot be read. -/
  | absent (rule : Rule Phrase)
  /-- The rule as often as it can be read. -/
  | many (rule : Rule Phrase)
  /-- Prints what is read as it is written. -/
  | asWritten (rule : Rule Phrase)
  /-- Prints nothing of what is read. -/
  | unprinted (rule : Rule Phrase)
  /-- Prints tokens without reading any. -/
  | printed (tokens : List Token)
  /-- Entries with commas between them, printed with those of the first kind in front. -/
  | entries (first other : Rule Phrase)

/-- What a rule makes of tokens: the printed ones, and the ones that are left. -/
abbrev Reader := List Token → Option (List Token × List Token)

namespace Reader

/-- Reads as often as possible. A step that reads nothing is not made. -/
def many (read? : Reader) (ts : List Token) : List Token × List Token :=
  match read? ts with
  | none => ([], ts)
  | some (out, rest) =>
    if _ : rest.length < ts.length then
      let (more, rest) := many read? rest
      (out ++ more, rest)
    else ([], ts)
termination_by ts.length

/-- Reads entries with commas between them. A comma that nothing follows is read as well. -/
def entries (lifetime? other? : Reader) (ts : List Token) : List Entry × List Token :=
  let (isLifetime, read) := match lifetime? ts with
    | some read => (true, some read)
    | none => (false, other? ts)
  match read with
  | some (out, .mark ',' _ :: rest) =>
    if _ : rest.length < ts.length then
      let (more, rest) := entries lifetime? other? rest
      (⟨isLifetime, out, true⟩ :: more, rest)
    else ([], ts)
  | some (out, rest) => ([⟨isLifetime, out, false⟩], rest)
  | none => ([], ts)
termination_by ts.length

end Reader

/-- The tokens behind a sign. -/
def behindSign? : List Char → List Token → Option (List Token)
  | [], ts => some ts
  | [c], .mark d _ :: ts => if c = d then some ts else none
  | c :: cs, .mark d true :: ts => if c = d then behindSign? cs ts else none
  | _, _ => none

namespace Rule

variable {Phrase : Type}

instance : Append (Rule Phrase) := ⟨both⟩

instance : OrElse (Rule Phrase) := ⟨fun first second => either first (second ())⟩

/-! ### Reading -/

/-- Reads a rule of the grammar `rules`. The first argument bounds how deep rules are nested. -/
def read? (rules : Phrase → Rule Phrase) : Nat → Rule Phrase → Reader
  | 0, _, _ => none
  | n + 1, rule, ts =>
    match rule, ts with
    | nothing, _ => some ([], ts)
    | sign text, _ => (behindSign? text.toList ts).map fun rest => (Source.sign text, rest)
    | word text, .ident w :: rest => if w = text then some ([.ident w], rest) else none
    | name, .ident w :: rest => if Source.isName w then some ([.ident w], rest) else none
    | lifetime, .mark '\'' _ :: .ident label :: rest => some (Source.lifetime label, rest)
    | literal, .literal text value :: rest => some ([.literal text value], rest)
    | position endsOpen, .literal text _ :: rest => do
      let (ns, pointed) ← Source.positions? text
      if pointed = endsOpen then
        some (Source.positionTokens ns ++ if endsOpen then Source.sign "." else [], rest)
      else none
    | token, t :: rest => some ([t], rest)
    | group d body, .group d' inner :: rest =>
      if d = d' then
        match read? rules n body inner with
        | some (out, []) => some ([.group d out], rest)
        | _ => none
      else none
    | phrase p, _ => read? rules n (rules p) ts
    | both first second, _ =>
      (read? rules n first ts).bind fun (out, rest) =>
        (read? rules n second rest).map fun (more, rest) => (out ++ more, rest)
    | either first second, _ => read? rules n first ts <|> read? rules n second ts
    | absent rule, _ => if (read? rules n rule ts).isSome then none else some ([], ts)
    | many rule, _ => some (Reader.many (read? rules n rule) ts)
    | asWritten rule, _ =>
      (read? rules n rule ts).map fun (_, rest) => (ts.take (ts.length - rest.length), rest)
    | unprinted rule, _ => (read? rules n rule ts).map fun (_, rest) => ([], rest)
    | printed out, _ => some (out, ts)
    | entries first other, _ =>
      let (es, rest) := Reader.entries (read? rules n first) (read? rules n other) ts
      some (Source.lifetimesFirst es, rest)
    | _, _ => none

/-! ### Derived rules -/

/-- A rule that may be left out. -/
def opt (rule : Rule Phrase) : Rule Phrase := rule <|> nothing

/-- Nothing, if the rule can be read. -/
def ahead (rule : Rule Phrase) : Rule Phrase := absent (absent rule)

/-- The first one of some rules. -/
def oneOf : List (Rule Phrase) → Rule Phrase
  | [] => absent nothing
  | [rule] => rule
  | rule :: rules => rule <|> oneOf rules

/-- One of some words. -/
def anyWord (words : List String) : Rule Phrase := oneOf (words.map word)

/-- One of some signs. A sign that starts with another one stands in front of it. -/
def anySign (signs : List String) : Rule Phrase := oneOf (signs.map sign)

/-- A rule once or more often, with a sign between; the sign may stand behind the last one too. -/
def separatedBy (text : String) (rule : Rule Phrase) : Rule Phrase :=
  rule ++ many (sign text ++ rule) ++ opt (sign text)

/-- A rule any number of times, with commas. -/
def list (rule : Rule Phrase) : Rule Phrase := opt (separatedBy "," rule)

/-- A part between parentheses. -/
def inParens (rule : Rule Phrase) : Rule Phrase := group .parenthesis rule

/-- A part between brackets. -/
def inBrackets (rule : Rule Phrase) : Rule Phrase := group .bracket rule

/-- A part between braces. -/
def inBraces (rule : Rule Phrase) : Rule Phrase := group .brace rule

/-- A bracketed part of any tokens. -/
def anyGroup : Rule Phrase :=
  inParens (many token) <|> inBrackets (many token) <|> inBraces (many token)

/-- A colon with bounds behind it. Without bounds the colon is not printed. -/
def bounded (bound : Rule Phrase) : Rule Phrase :=
  opt (sign ":" ++ separatedBy "+" bound <|> unprinted (sign ":"))

end Rule

end BeanStream.Grammar
