import BeanStream.Grammar.Rule

/-!
# Phrases

The phrases of program text that refer to each other, and the rules that most of them share:
attributes, paths in attributes, and the inputs of macros. What stands in a path is a type between
angle signs, what stands in a type can be an expression, and an expression holds blocks with items
in them; so the grammar has no first part, and its phrases are named before their rules.
-/

namespace BeanStream.Grammar

/-- A phrase of program text. -/
inductive Phrase where
  /-- A type, or a sum of bounds that stands for one. -/
  | type
  /-- A type that is no sum. -/
  | singleType
  /-- A bound on a type. -/
  | bound
  /-- A pattern, or several with bars between them. -/
  | pattern
  | singlePattern
  /-- An expression. In front of a block, literals of structs have to stand in brackets. -/
  | expression (withStructs : Bool)
  /-- An expression that is not made of others by signs between them. -/
  | operand (withStructs : Bool)
  /-- An expression where a statement starts, which may end behind its block. -/
  | statementExpression
  /-- Statements between braces. -/
  | block
  /-- A declaration. -/
  | item
  /-- The names that a declaration brings into view. -/
  | imports

open Rule

abbrev type : Rule Phrase := phrase .type

abbrev singleType : Rule Phrase := phrase .singleType

abbrev bound : Rule Phrase := phrase .bound

abbrev pattern : Rule Phrase := phrase .pattern

abbrev singlePattern : Rule Phrase := phrase .singlePattern

/-- An expression in a place of its own. -/
abbrev expression : Rule Phrase := phrase (.expression true)

/-- An expression in front of a block. -/
abbrev condition : Rule Phrase := phrase (.expression false)

abbrev statementExpression : Rule Phrase := phrase .statementExpression

abbrev block : Rule Phrase := phrase .block

/-! ### Names -/

/-- The words that stand for modules. -/
def moduleWords : List String := ["super", "self", "crate", "try"]

/-- A name, or the word that stands for none. -/
def nameOrBlank : Rule Phrase := name <|> word "_"

/-- A path without arguments. -/
def plainPath : Rule Phrase :=
  let segment := name <|> anyWord ("Self" :: moduleWords)
  opt (sign "::") ++ segment ++ many (sign "::" ++ segment)

/-- The call of a macro, behind its path. The sign is not the one for inequality. -/
def macroInput : Rule Phrase := absent (sign "!=") ++ sign "!" ++ anyGroup

/-! ### Literals -/

/-- A literal without a sign. -/
def plainLiteral : Rule Phrase := literal <|> anyWord ["true", "false"]

/-- A literal. -/
def signedLiteral : Rule Phrase := plainLiteral <|> sign "-" ++ literal

/-- What stands for a constant in a list of arguments. -/
def constant : Rule Phrase := signedLiteral <|> block

/-! ### Attributes -/

/-- What stands in an attribute. -/
def attributeBody : Rule Phrase :=
  (plainPath <|> word "unsafe") ++ opt (anyGroup <|> sign "=" ++ expression)

/-- The attributes in front of something. -/
def attributes : Rule Phrase := many (sign "#" ++ inBrackets attributeBody)

/-- The attributes of what they stand in. -/
def innerAttributes : Rule Phrase := many (sign "#" ++ sign "!" ++ inBrackets attributeBody)

end BeanStream.Grammar
