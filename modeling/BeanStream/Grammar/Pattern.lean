import BeanStream.Grammar.Type

/-!
# Grammar of patterns

What a value is matched with: names to bind, literals and ranges of them, paths, and patterns for
the parts of a value. A range that includes its end has two spellings and is printed in one.
-/

namespace BeanStream.Grammar

open Rule

/-- The sign of a range behind its start. Three points stand for the range with its end. -/
def patternRange : Rule Phrase :=
  sign "..=" <|> unprinted (sign "...") ++ printed (Source.sign "..=") <|> sign ".."

/-- An end of a range. -/
def patternEnd : Rule Phrase := signedLiteral <|> word "const" ++ block <|> valuePath

/-- The pattern of a field of a struct. -/
def fieldPattern : Rule Phrase :=
  let named := opt (word "ref") ++ opt (word "mut") ++ name
  attributes ++ oneOf [
    sign "..",
    (name <|> position false) ++ absent (sign "::") ++ sign ":" ++ pattern,
    asWritten (word "box" ++ named),
    named]

/-- A name to bind. Alone it is told from a path by what stands behind it. -/
def boundName : Rule Phrase :=
  let pathGoesOn := oneOf [sign "::", sign "!", sign "..", inBraces (many token),
    inParens (many token)]
  let named := name <|> word "self"
  (word "ref" ++ opt (word "mut") ++ named <|> word "mut" ++ named <|> named ++ absent pathGoesOn)
    ++ opt (sign "@" ++ singlePattern)

/-- A pattern without bars. -/
def singlePatternRule : Rule Phrase := oneOf [
  asWritten (word "box" ++ singlePattern),
  word "_",
  (signedLiteral <|> word "const" ++ block) ++ opt (patternRange ++ opt patternEnd),
  anySign ["..=", ".."] ++ opt patternEnd,
  sign "&" ++ opt (word "mut") ++ singlePattern,
  inParens (list pattern),
  inBrackets (list pattern),
  boundName,
  valuePath ++ opt (oneOf [macroInput, inBraces (list fieldPattern), inParens (list pattern),
    patternRange ++ opt patternEnd])]

/-- A pattern. -/
def patternRule : Rule Phrase :=
  opt (sign "|") ++ singlePattern
    ++ many (absent (sign "||") ++ absent (sign "|=") ++ sign "|" ++ singlePattern)

end BeanStream.Grammar
