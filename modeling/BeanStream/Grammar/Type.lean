import BeanStream.Grammar.Phrase

/-!
# Grammar of types

Paths with arguments, bounds, parameters, and types. In a type, arguments follow their name; in an
expression a double colon stands between them, since an angle sign would compare.

A double colon in front of the inputs of a function type is not printed, nor is a colon without
bounds behind a parameter, nor an empty list of parameters. Bounds and types that are not part of
the settled language are printed as they are written.
-/

namespace BeanStream.Grammar

open Rule

/-! ### Paths -/

/-- An argument between angle signs. A name in front of it may be given a value or bounds. -/
def argument : Rule Phrase :=
  constant <|>
    type ++ opt (sign "=" ++ (constant <|> type) <|> sign ":" ++ opt (separatedBy "+" bound))

/-- The arguments between angle signs. -/
def arguments : Rule Phrase :=
  sign "<" ++ entries (lifetime ++ absent (sign "+")) argument ++ sign ">"

/-- A name in the path of a type, with its arguments. -/
def typeSegment : Rule Phrase :=
  anyWord moduleWords <|>
    (name <|> word "Self") ++ opt (opt (sign "::") ++ absent (sign "<=") ++ arguments)

/-- A name in the path of a value, with its arguments. -/
def valueSegment : Rule Phrase :=
  anyWord moduleWords <|> (name <|> word "Self") ++ opt (sign "::" ++ arguments)

/-- Some segments behind each other. -/
def segments (segment : Rule Phrase) : Rule Phrase := segment ++ many (sign "::" ++ segment)

/-- A path, which may start from a type or from what a type is as a trait. -/
def path (segment : Rule Phrase) : Rule Phrase :=
  opt (sign "::") ++ segments segment <|>
    sign "<" ++ type ++ opt (word "as" ++ opt (sign "::") ++ segments typeSegment) ++ sign ">"
      ++ sign "::" ++ segments segment

/-- The path of a value. -/
def valuePath : Rule Phrase := path valueSegment

/-- What a function returns. -/
def result : Rule Phrase := opt (sign "->" ++ singleType)

/-- The arguments of a trait of functions: what they are given and what they return. -/
def callArguments : Rule Phrase :=
  unprinted (opt (sign "::")) ++ inParens (list type) ++ result

/-- The path of a type. -/
def typePath : Rule Phrase :=
  path typeSegment ++ many (callArguments ++ many (sign "::" ++ typeSegment))

/-! ### Parameters -/

/-- A lifetime as a parameter. -/
def lifetimeParameter : Rule Phrase := attributes ++ lifetime ++ bounded lifetime

/-- A constant or a type as a parameter. -/
def otherParameter : Rule Phrase :=
  attributes ++ (
    word "const" ++ name ++ sign ":" ++ type ++ opt (sign "=" ++ (constant <|> name)) <|>
      nameOrBlank ++ bounded bound ++ opt (sign "=" ++ type))

/-- The lifetimes that are bound for what follows, in the order of the text. -/
def binder : Rule Phrase :=
  word "for" ++ sign "<" ++ list (lifetimeParameter <|> otherParameter) ++ sign ">"

/-- The parameters of a declaration. -/
def parameters : Rule Phrase :=
  unprinted (sign "<" ++ sign ">") <|>
    opt (sign "<" ++ entries lifetimeParameter otherParameter ++ sign ">")

/-- A bound on a type, or bounds between lifetimes. -/
def predicate : Rule Phrase :=
  lifetime ++ sign ":" ++ opt (separatedBy "+" lifetime) <|>
    opt binder ++ type ++ sign ":" ++ opt (separatedBy "+" bound)

/-- The predicates of a declaration. -/
def whereClause : Rule Phrase :=
  opt (word "where" ++ separatedBy "," predicate <|> unprinted (word "where"))

/-! ### Bounds -/

/-- A trait as a bound. -/
def traitBound : Rule Phrase := opt binder ++ opt (sign "?") ++ opt binder ++ typePath

/-- A trait as a bound that also holds in constants. -/
def constBound : Rule Phrase :=
  opt binder ++ (word "const" <|> inBrackets (word "const") <|> sign "~" ++ word "const")
    ++ opt (sign "?") ++ typePath

/-- A bound. -/
def boundRule : Rule Phrase := oneOf [
  lifetime,
  word "use" ++ sign "<" ++ entries lifetime (name <|> word "Self") ++ sign ">",
  asWritten (constBound <|> inParens constBound),
  traitBound,
  inParens traitBound]

/-! ### Types -/

/-- How a function is called. -/
def convention : Rule Phrase := word "extern" ++ opt literal

/-- An input of a function type. -/
def functionTypeInput : Rule Phrase :=
  let named := opt ((nameOrBlank <|> word "self") ++ absent (sign "::") ++ sign ":")
  attributes ++ (
    asWritten (word "mut" ++ word "self" ++ opt (sign ":" ++ type)) <|>
      named ++ (sign "..." <|> type))

/-- The type of a function. -/
def functionType : Rule Phrase :=
  opt (word "unsafe") ++ opt convention ++ word "fn" ++ inParens (list functionTypeInput) ++ result

/-- A type that is no sum. -/
def singleTypeRule : Rule Phrase := oneOf [
  opt binder ++ functionType,
  binder ++ typePath,
  inParens (list type),
  inParens traitBound,
  asWritten (word "dyn" ++ sign "*" ++ separatedBy "+" bound),
  anyWord ["dyn", "impl"] ++ bound,
  inBrackets (type ++ opt (sign ";" ++ expression)),
  sign "*" ++ anyWord ["const", "mut"] ++ singleType,
  sign "&" ++ opt lifetime ++ opt (word "mut") ++ singleType,
  absent (sign "!=") ++ sign "!",
  word "_",
  lifetime,
  typePath ++ opt macroInput]

/-- A type. A plus sign adds a bound to it. -/
def typeRule : Rule Phrase := singleType ++ many (sign "+" ++ bound) ++ opt (sign "+")

end BeanStream.Grammar
