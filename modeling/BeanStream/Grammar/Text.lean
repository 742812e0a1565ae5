import BeanStream.Grammar.Item
import BeanStream.Source.Lexer

/-!
# Program text in print

The grammar of program text, and the printed form of its parts. Text is read as predicates on
types, as a type, or as bounds, and printed by the rules of the grammar. **Text that the grammar
does not know is printed as it is written** (`reprinted`).
-/

namespace BeanStream.Grammar

open Source (Token)

/-- The rules of program text. -/
def rules : Phrase → Rule Phrase
  | .type => typeRule
  | .singleType => singleTypeRule
  | .bound => boundRule
  | .pattern => patternRule
  | .singlePattern => singlePatternRule
  | .expression withStructs => expressionRule withStructs
  | .operand withStructs => operandRule withStructs
  | .statementExpression => statementExpressionRule
  | .block => blockRule
  | .item => itemRule
  | .imports => importsRule

mutual

/-- The number of tokens at any depth in a token. -/
def tokenSize : Token → Nat
  | .group _ body => size body + 1
  | _ => 1

/-- The number of tokens at any depth. -/
def size : List Token → Nat
  | [] => 0
  | t :: ts => tokenSize t + size ts

end

/-- How deep rules are nested before one of them reads a token, and some more. -/
def depthOfToken : Nat := 1000

/-- The printed form of tokens that a rule reads to their end. -/
def read? (rule : Rule Phrase) (ts : List Token) : Option (List Token) :=
  match rule.read? rules (depthOfToken * (size ts + 1)) ts with
  | some (out, []) => some out
  | _ => none

/-- What tokens are read as: predicates, a type, or bounds. -/
def readings : List (Rule Phrase) := [predicate, type, Rule.separatedBy "+" bound]

/-- The printed form of tokens. -/
def reprinted (ts : List Token) : List Token := (readings.findSome? (read? · ts)).getD ts

/-- The tokens of a type, of bounds, or of predicates, as they are printed. -/
def typeTokens? (s : String) : Option (List Token) := (Source.tokens? s).map reprinted

end BeanStream.Grammar
