import BeanStream.Text.Quoted

/-!
# Structured diagnostics

The one-line layouts in which the library shows its own values: a **record** with named parts
(possibly with hidden ones), a **list**, a **set**, and an **optional** part. Parts are given
as finished texts.
-/

namespace BeanStream.Text

/-- `Name { part: text, part: text }`, just `Name` if there is no part. -/
def record (name : String) : List (String × String) → String
  | [] => name
  | parts =>
    name ++ " \x7b " ++ ", ".intercalate (parts.map fun p => p.1 ++ ": " ++ p.2) ++ " \x7d"

/-- A record that does not show all of its parts: two dots close it. -/
def partialRecord (name : String) (parts : List (String × String)) : String :=
  name ++ " \x7b " ++ String.join (parts.map fun p => p.1 ++ ": " ++ p.2 ++ ", ") ++ ".. \x7d"

/-- Parts between square brackets. -/
def listing (parts : List String) : String := "[" ++ ", ".intercalate parts ++ "]"

/-- Parts between braces. -/
def braced (parts : List String) : String := "\x7b" ++ ", ".intercalate parts ++ "\x7d"

/-- `Name(text)`. -/
def wrapped (name text : String) : String := name ++ "(" ++ text ++ ")"

/-- A part that may be missing. -/
def optional : Option String → String
  | none => "None"
  | some text => wrapped "Some" text

/-- The texts of the truth values. -/
def flag (b : Bool) : String := if b then "true" else "false"

end BeanStream.Text
