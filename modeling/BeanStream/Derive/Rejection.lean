/-!
# Rejected items

Why a program item does not describe a bean, with the messages that say so. The first message is
the main one; a repeated property name also points at its first declaration.
-/

namespace BeanStream.Derive

/-- Why an item is rejected. -/
inductive Rejection where
  /-- A bean attribute without arguments. -/
  | noArguments
  /-- A bean attribute whose arguments are given like a value. -/
  | notParenthesised
  /-- An option of an attribute does not start with a name. -/
  | notIdentifier
  /-- An option of an attribute starts with a word that cannot be a name. -/
  | keyword (name : String)
  /-- A mark is missing. -/
  | missingMark (mark : Char)
  /-- A string is missing, at the end of the arguments or in front of something else. -/
  | notString (atEnd : Bool)
  /-- An option is given twice. -/
  | repeated (name : String)
  /-- An option that types do not have. -/
  | unknownTypeOption (name : String)
  /-- An option that fields do not have. -/
  | unknownFieldOption (name : String)
  | emptyTypePath
  | renamedSkip
  | notStruct
  /-- A type path for a family of types. -/
  | sharedTypePath
  | emptyName
  | duplicateName (name : String)
  deriving DecidableEq

/-- The messages of a rejection, the main one first. -/
def Rejection.messages : Rejection → List String
  | .noArguments => ["expected attribute arguments in parentheses: #[bean(...)]"]
  | .notParenthesised => ["expected parentheses: #[bean(...)]"]
  | .notIdentifier => ["expected identifier"]
  | .keyword name => ["expected identifier, found keyword `" ++ name ++ "`"]
  | .missingMark mark => ["expected `" ++ mark.toString ++ "`"]
  | .notString true => ["unexpected end of input, expected string literal"]
  | .notString false => ["expected string literal"]
  | .repeated name => ["`" ++ name ++ "` is specified more than once"]
  | .unknownTypeOption name =>
    ["unknown bean attribute `" ++ name ++
      "`, expected `type_path`, `conventions` or `auto_register`"]
  | .unknownFieldOption name =>
    ["unknown field attribute `" ++ name ++ "`, expected `skip` or `rename`"]
  | .emptyTypePath => ["type path must not be empty"]
  | .renamedSkip => ["a skipped field cannot be renamed"]
  | .notStruct => ["`Bean` can only be derived for structs"]
  | .sharedTypePath =>
    ["generic beans cannot declare a type path, their instances would share it"]
  | .emptyName => ["property names must not be empty"]
  | .duplicateName name => ["duplicate property name `" ++ name ++ "`", "first declared here"]

end BeanStream.Derive
