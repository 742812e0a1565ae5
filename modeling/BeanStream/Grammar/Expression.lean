import BeanStream.Grammar.Pattern

/-!
# Grammar of expressions

An expression is a row of operands with operators between them. How operators bind does not matter
to print, so the row is read as it stands.

In front of a block an operand is not the literal of a struct, whose braces would be taken for the
block. Where a statement or the value of an arm starts, an expression that ends with a block is
over, unless a point or a question mark goes on with it (`statementExpressionRule`).
-/

namespace BeanStream.Grammar

open Rule

/-! ### Parts -/

/-- The signs that stand between operands, longer ones in front. -/
def operators : List String :=
  ["<<=", ">>=", "+=", "-=", "*=", "/=", "%=", "^=", "&=", "|=", "&&", "||", "<<", ">>", "==",
    "<=", "!=", ">=", "+", "-", "*", "/", "%", "^", "&", "|", "<", ">"]

/-- The sign of a range. -/
def range : Rule Phrase := anySign ["..=", ".."]

/-- What may follow a range, or a word that leaves a block. In front of a block it does not start
with one. -/
def following (withStructs : Bool) (rule : Rule Phrase) : Rule Phrase :=
  opt (if withStructs then rule else absent (inBraces (many token)) ++ rule)

/-- The last operand of a range. -/
def rangeEnd (withStructs : Bool) : Rule Phrase :=
  following withStructs (phrase (.operand withStructs))

/-- What a block is left with. -/
def leavingValue (withStructs : Bool) : Rule Phrase :=
  following withStructs (phrase (.expression withStructs))

/-- What follows a point: a field, or a method with its arguments between angle signs. -/
def member : Rule Phrase :=
  position false <|>
    opt (position true) ++
      (word "await" <|> name ++ opt (sign "::" ++ arguments) <|> position false)

/-- A point that starts no range. -/
def point : Rule Phrase := absent (sign "..") ++ sign "."

/-- What goes on with an operand: inputs, a member, an index, or a question mark. -/
def trailer : Rule Phrase := oneOf [
  inParens (list expression),
  point ++ member,
  inBrackets expression,
  sign "?"]

/-- What goes on with an expression behind an operand. -/
def continuation (withStructs : Bool) : Rule Phrase := oneOf [
  anySign operators ++ phrase (.operand withStructs),
  absent (sign "=>") ++ sign "=" ++ phrase (.operand withStructs),
  range ++ rangeEnd withStructs,
  word "as" ++ singleType]

/-! ### Blocks -/

/-- A label in front of a block. -/
def label : Rule Phrase := lifetime ++ sign ":"

/-- An arm of a match. -/
def arm : Rule Phrase :=
  attributes ++ pattern ++ opt (word "if" ++ expression) ++ sign "=>" ++ statementExpression
    ++ opt (sign ",")

/-- An expression that ends with a block. -/
def blockExpression : Rule Phrase := oneOf [
  opt label ++ oneOf [
    word "while" ++ condition ++ block,
    word "for" ++ pattern ++ word "in" ++ condition ++ block,
    word "loop" ++ block,
    block],
  word "if" ++ condition ++ block ++ many (word "else" ++ word "if" ++ condition ++ block)
    ++ opt (word "else" ++ block),
  word "match" ++ condition ++ inBraces (innerAttributes ++ many arm),
  anyWord ["try", "unsafe", "const"] ++ block]

/-- An expression where a statement starts. -/
def statementExpressionRule : Rule Phrase :=
  attributes ++ blockExpression
      ++ opt (ahead (point <|> sign "?") ++ trailer ++ many trailer ++ many (continuation true))
    <|> expression

/-! ### Operands -/

/-- An input of a closure. -/
def closureInput : Rule Phrase := attributes ++ singlePattern ++ opt (sign ":" ++ type)

/-- A closure. One that names its result has a block for its body. -/
def closure (withStructs : Bool) : Rule Phrase :=
  opt binder ++ opt (word "const") ++ opt (word "static") ++ opt (word "async")
    ++ opt (word "move") ++ sign "|" ++ list closureInput ++ sign "|"
    ++ (sign "->" ++ type ++ block <|> phrase (.expression withStructs))

/-- A field of the literal of a struct, or the value that the other fields are taken from. -/
def fieldValue : Rule Phrase :=
  attributes ++ (
    sign ".." ++ opt expression <|> (name <|> position false) ++ opt (sign ":" ++ expression))

/-- An operand without what goes on with it. -/
def atom (withStructs : Bool) : Rule Phrase := oneOf [
  plainLiteral,
  word "async" ++ opt (word "move") ++ block,
  closure withStructs,
  blockExpression,
  asWritten (word "builtin" ++ sign "#" ++ name ++ inParens (many token)),
  valuePath ++ opt (
    if withStructs then macroInput <|> inBraces (list fieldValue) else macroInput),
  inParens (list expression),
  inBrackets (opt (
    expression ++ (sign ";" ++ expression <|> many (sign "," ++ expression) ++ opt (sign ",")))),
  word "break" ++ opt lifetime ++ leavingValue withStructs,
  word "continue" ++ opt lifetime,
  anyWord ["return", "yield"] ++ leavingValue withStructs,
  asWritten (word "become" ++ phrase (.expression withStructs)),
  word "let" ++ pattern ++ sign "=" ++ phrase (.operand withStructs),
  range ++ rangeEnd withStructs,
  word "_"]

/-- An operand. Signs in front of it take it as it is with all that goes on with it. -/
def operandRule (withStructs : Bool) : Rule Phrase :=
  let operand := phrase (.operand withStructs)
  let address := word "raw" ++ anyWord ["mut", "const"] <|> opt (word "mut")
  attributes ++ oneOf [
    sign "&" ++ address ++ operand,
    anySign ["*", "!", "-"] ++ operand,
    atom withStructs ++ many trailer]

/-- An expression. -/
def expressionRule (withStructs : Bool) : Rule Phrase :=
  phrase (.operand withStructs) ++ many (continuation withStructs)

end BeanStream.Grammar
