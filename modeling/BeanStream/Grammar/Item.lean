import BeanStream.Grammar.Expression

/-!
# Grammar of items

Statements, and the declarations that may stand among them or in modules, traits and
implementations.

An empty list of predicates is not printed, nor is who can see a variant. **Declarations that the
language does not know are printed as they are written** if they have the form of one that it
knows: a function without a body, a constant without a value or with parameters, an alias with
bounds or without a type, an implementation that can be seen by some or holds in constants.
-/

namespace BeanStream.Grammar

open Rule

/-- A semicolon. -/
def semicolon : Rule Phrase := sign ";"

/-- Who can see a declaration. -/
def visibility : Rule Phrase :=
  word "pub" ++ opt (inParens (anyWord ["crate", "self", "super"] <|> word "in" ++ plainPath))

/-! ### Functions -/

/-- The value that a method is called on. -/
def receiver : Rule Phrase :=
  sign "&" ++ opt lifetime ++ opt (word "mut") ++ word "self" <|>
    opt (word "mut") ++ word "self" ++ opt (sign ":" ++ type)

/-- An input of a function. One that is a type alone is printed with a blank for its name. -/
def functionInput : Rule Phrase :=
  attributes ++ oneOf [
    sign "...",
    receiver,
    ahead (name ++ sign "<") ++ printed (Source.words ["_"] ++ Source.sign ":") ++ type,
    singlePattern ++ sign ":" ++ (sign "..." <|> type)]

/-- A function up to its body, with the words that may stand in front of it. -/
def signatureWith (safety : List String) : Rule Phrase :=
  opt (word "const") ++ opt (word "async") ++ opt (anyWord safety) ++ opt convention
    ++ word "fn" ++ name ++ parameters ++ inParens (list functionInput)
    ++ opt (sign "->" ++ type) ++ whereClause

/-- A function up to its body. -/
def signature : Rule Phrase := signatureWith ["unsafe"]

/-! ### Constants and aliases -/

/-- A value behind an equality sign. -/
def value : Rule Phrase := sign "=" ++ expression

/-- A type behind an equality sign. -/
def definition : Rule Phrase := sign "=" ++ type

/-- The name and the type of a constant. -/
def typedConstant : Rule Phrase := word "const" ++ nameOrBlank ++ sign ":" ++ type

/-- A constant in any form. -/
def anyConstant : Rule Phrase :=
  word "const" ++ nameOrBlank ++ parameters ++ sign ":" ++ type ++ opt value ++ whereClause
    ++ semicolon

/-- The name and the parameters of an alias. -/
def aliasHead : Rule Phrase := word "type" ++ name ++ parameters

/-- An alias in any form. -/
def anyAlias : Rule Phrase :=
  aliasHead ++ opt (sign ":" ++ opt (separatedBy "+" bound)) ++ whereClause ++ opt definition
    ++ whereClause ++ semicolon

/-- The name of a static value. -/
def staticName : Rule Phrase := word "static" ++ opt (word "mut") ++ name

/-! ### Types -/

/-- The fields of a struct, with their names. -/
def namedFields : Rule Phrase :=
  inBraces (list (attributes ++ opt visibility ++ nameOrBlank ++ sign ":" ++ type))

/-- The fields of a struct that is a tuple. -/
def tupleFields : Rule Phrase := inParens (list (attributes ++ opt visibility ++ type))

/-- A variant of an enumeration. -/
def variant : Rule Phrase :=
  attributes ++ unprinted (opt visibility) ++ name ++ opt (namedFields <|> tupleFields) ++ opt value

/-- The declaration of a type. -/
def typeDeclaration : Rule Phrase := oneOf [
  word "struct" ++ name ++ parameters ++ (
    tupleFields ++ whereClause ++ semicolon <|> whereClause ++ (namedFields <|> semicolon)),
  word "enum" ++ name ++ parameters ++ whereClause ++ inBraces (list variant),
  word "union" ++ name ++ parameters ++ whereClause ++ namedFields]

/-! ### Traits and implementations -/

/-- Where declarations are made with a macro. -/
def macroItem : Rule Phrase := attributes ++ plainPath ++ macroInput ++ opt semicolon

/-- A declaration in a trait. -/
def traitItem : Rule Phrase := oneOf [
  attributes ++ oneOf [
    signature ++ (block <|> semicolon),
    typedConstant ++ opt value ++ semicolon,
    aliasHead ++ bounded bound ++ opt definition ++ whereClause ++ semicolon],
  macroItem,
  asWritten (attributes ++ opt visibility ++ opt (word "default") ++ oneOf [
    signature ++ (block <|> semicolon), anyConstant, anyAlias])]

/-- A trait, or an alias of bounds. -/
def trait : Rule Phrase :=
  opt (word "unsafe") ++ opt (word "auto") ++ word "trait" ++ name ++ parameters ++ (
    bounded bound ++ whereClause ++ inBraces (innerAttributes ++ many traitItem) <|>
      sign "=" ++ opt (separatedBy "+" bound) ++ whereClause ++ semicolon)

/-- A declaration in an implementation. -/
def implementationItem : Rule Phrase := oneOf [
  attributes ++ opt visibility ++ opt (word "default") ++ oneOf [
    signature ++ block,
    typedConstant ++ value ++ semicolon,
    aliasHead ++ definition ++ whereClause ++ semicolon],
  macroItem,
  asWritten (attributes ++ opt visibility ++ opt (word "default") ++ oneOf [
    signature ++ semicolon, anyConstant, anyAlias])]

/-- The parameters of an implementation, which are told from a path by what follows the first
name. -/
def implementationParameters : Rule Phrase :=
  let afterName := oneOf [sign ">", sign ",", absent (sign "::") ++ sign ":", sign "="]
  opt (ahead (sign "<" ++ oneOf [sign ">", sign "#", (lifetime <|> name) ++ afterName,
    word "const"]) ++ parameters)

/-- The body of an implementation. -/
def implementationBody : Rule Phrase :=
  whereClause ++ inBraces (innerAttributes ++ many implementationItem)

/-- An implementation, of a trait for a type or of a type alone. -/
def implementation : Rule Phrase :=
  opt (word "default") ++ opt (word "unsafe") ++ word "impl" ++ implementationParameters
    ++ (opt (sign "!") ++ typePath ++ word "for" ++ type <|> type) ++ implementationBody

/-- An implementation in any form. -/
def anyImplementation : Rule Phrase :=
  opt visibility ++ opt (word "default") ++ opt (word "unsafe") ++ word "impl"
    ++ implementationParameters ++ opt (opt (sign "?") ++ word "const")
    ++ opt (absent (sign "!" ++ inBraces (many token)) ++ sign "!") ++ type
    ++ opt (word "for" ++ type) ++ implementationBody

/-! ### Modules -/

/-- What an import brings into view. -/
def importsRule : Rule Phrase :=
  let imports := opt (sign "::") ++ phrase .imports
  oneOf [
    sign "*",
    inBraces (list imports),
    (name <|> anyWord ("Self" :: moduleWords)) ++
      opt (sign "::" ++ phrase .imports <|> word "as" ++ nameOrBlank)]

/-- A declaration of something foreign. -/
def foreignItem : Rule Phrase := oneOf [
  attributes ++ opt visibility ++ oneOf [
    signature ++ semicolon,
    staticName ++ sign ":" ++ type ++ semicolon,
    aliasHead ++ whereClause ++ semicolon],
  macroItem,
  asWritten (attributes ++ opt visibility ++ oneOf [
    signatureWith ["unsafe", "safe"] ++ (block <|> semicolon),
    opt (anyWord ["unsafe", "safe"]) ++ staticName ++ sign ":" ++ type ++ opt value ++ semicolon,
    anyAlias])]

/-- A module, or declarations from elsewhere. -/
def moduleItem : Rule Phrase := oneOf [
  opt visibility ++ opt (word "unsafe") ++ word "mod" ++ name ++ (
    semicolon <|> inBraces (innerAttributes ++ many (phrase .item <|> macroItem))),
  opt (word "unsafe") ++ convention ++ inBraces (innerAttributes ++ many foreignItem),
  opt visibility ++ word "extern" ++ word "crate" ++ (name <|> word "self")
    ++ opt (word "as" ++ nameOrBlank) ++ semicolon,
  opt visibility ++ word "use" ++ opt (sign "::") ++ phrase .imports ++ semicolon]

/-! ### Items -/

/-- A declaration in a form that the language knows. -/
def settledItem : Rule Phrase := oneOf [
  opt visibility ++ oneOf [
    signature ++ block,
    staticName ++ sign ":" ++ type ++ value ++ semicolon,
    typedConstant ++ value ++ semicolon,
    aliasHead ++ whereClause ++ definition ++ semicolon,
    typeDeclaration,
    trait],
  implementation,
  moduleItem,
  plainPath ++ sign "!" ++ (name <|> word "try") ++ anyGroup ++ opt semicolon]

/-- A declaration that is printed as it is written. -/
def unsettledItem : Rule Phrase := oneOf [
  opt visibility ++ oneOf [
    signature ++ semicolon,
    staticName ++ opt (sign ":" ++ type) ++ opt value ++ semicolon,
    anyConstant,
    anyAlias,
    word "macro" ++ name ++ opt (inParens (many token)) ++ inBraces (many token)],
  anyImplementation]

/-- A declaration. -/
def itemRule : Rule Phrase :=
  attributes ++ settledItem <|> asWritten (attributes ++ unsettledItem)

/-! ### Statements -/

/-- A declaration of local names. -/
def localDeclaration : Rule Phrase :=
  attributes ++ word "let" ++ singlePattern ++ opt (sign ":" ++ type)
    ++ opt (value ++ opt (word "else" ++ block)) ++ semicolon

/-- A statement. A macro with braces is one, unless something goes on with it. -/
def statement : Rule Phrase := oneOf [
  semicolon,
  phrase .item,
  localDeclaration,
  attributes ++ plainPath ++ sign "!" ++ inBraces (many token) ++ absent (point <|> sign "?")
    ++ opt semicolon,
  statementExpression ++ opt semicolon]

/-- Statements between braces. -/
def blockRule : Rule Phrase := inBraces (innerAttributes ++ many statement)

end BeanStream.Grammar
