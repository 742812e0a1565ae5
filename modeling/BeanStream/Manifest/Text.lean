import BeanStream.Manifest.Document

/-!
# Manifest text

The text of a manifest, a statement a line: an entry, a header between brackets, or between two
pairs of them if it is about a list of tables. Lines may be empty, and end with a comment. A value
may reach over several lines.

A mark of the byte order may stand in front of the text.
-/

namespace BeanStream.Manifest

/-- Reads the statement that a line starts with, if there is one. -/
def statement? : List Char → Option (Option Statement × List Char)
  | [] => some (none, [])
  | '[' :: '[' :: cs => do
    let (place, rest) ← key? cs
    match rest with
    | ']' :: ']' :: rest => return (some (.element place), rest)
    | _ => none
  | '[' :: cs => do
    let (place, rest) ← key? cs
    match rest with
    | ']' :: rest => return (some (.header place), rest)
    | _ => none
  | c :: cs =>
    if c = '#' || c = '\n' || c = '\r' then some (none, c :: cs)
    else (Value.keyValue? Value.read? (c :: cs)).map fun ((key, value), rest) =>
      (some (.entry key value), rest)

/-- The text behind a comment, if there is one. -/
def behindComment : List Char → List Char
  | '#' :: rest => rest.dropWhile Key.isQuotable
  | cs => cs

/-- The text behind the end of a line. -/
def behindLine? (cs : List Char) : Option (List Char) :=
  match behindComment (cs.dropWhile Key.isBlank) with
  | [] => some []
  | '\n' :: rest | '\r' :: '\n' :: rest => some rest
  | _ => none

/-- The statements of a text. A step that reads nothing is refused. -/
def statements? (cs : List Char) : Option (List Statement) :=
  if cs.isEmpty then some []
  else do
    let (statement, rest) ← statement? (cs.dropWhile Key.isBlank)
    let rest ← behindLine? rest
    if _ : rest.length < cs.length then
      return statement.toList ++ (← statements? rest)
    else none
termination_by cs.length

/-- A text without the mark of the byte order in front of it. -/
def withoutMark : List Char → List Char
  | '\ufeff' :: cs => cs
  | cs => cs

/-- The document of a manifest, unless it is malformed. -/
def Document.ofText? (s : String) : Option Document := do
  ofStatements? (← statements? (withoutMark s.toList))

end BeanStream.Manifest
