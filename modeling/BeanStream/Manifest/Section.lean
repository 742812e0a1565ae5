import BeanStream.Manifest.Text

/-!
# Sections of a manifest

A section lists names under a key of the manifest, and can be spelled in several ways. The names
and the key are given as they are written. Values at the top of the manifest come **in front of all
tables**, because a header takes the entries behind it into its own table.

`tableKeys?` reads the names of a section back from the document. **It sees only tables proper**:
a section that is written as a value, or as a list of tables, has the same names
(`declaredKeys`) and is not seen.
-/

namespace BeanStream.Manifest

/-- How a section is written. -/
inductive Spelling where
  /-- One table with an entry for each name. -/
  | table
  /-- A table for each name. -/
  | subtables
  /-- A value that is a table. -/
  | inline
  /-- A dotted key for each name. -/
  | dotted
  /-- A table of a list for each name. -/
  | array
  /-- A text, without names. -/
  | text
  deriving DecidableEq, Repr

/-- A section, with its key and its names as they are written. -/
structure Section where
  key : String
  spelling : Spelling
  names : List String

namespace Section

/-- Whether a section stands in front of all tables. -/
def isValue (s : Section) : Bool := s.spelling ∈ [.inline, .dotted, .text]

/-- The lines that spell a section. What a name leads to does not matter, so each has the same
text or, if it has a table of its own, the same entry. -/
def text (s : Section) : String :=
  let entry (key : String) : String := key ++ " = \"1\""
  let path (name : String) : String := s.key ++ "." ++ name
  let lines := match s.spelling with
    | .table => ("[" ++ s.key ++ "]") :: s.names.map entry
    | .subtables => s.names.flatMap fun n => ["[" ++ path n ++ "]", entry "version"]
    | .inline => [s.key ++ " = \x7b " ++ ", ".intercalate (s.names.map entry) ++ " \x7d"]
    | .dotted => s.names.map (entry ∘ path)
    | .array => s.names.flatMap fun n => ["[[" ++ s.key ++ "]]", entry n]
    | .text => [entry s.key]
  String.join (lines.map (· ++ "\n"))

end Section

/-- The text of a manifest with some sections. -/
def manifestText (sections : List Section) : String :=
  let (values, tables) := sections.partition Section.isValue
  String.join ((values ++ tables).map Section.text)

/-- The document of a manifest with some sections, unless it is malformed. -/
def Document.ofSections? (sections : List Section) : Option Document :=
  ofText? (manifestText sections)

namespace Document

/-- The names of a section that is a table proper. -/
def tableKeys? (d : Document) (key : String) : Option (List String) :=
  match d.get? [key] with
  | some (.table _) => some (d.keysAt [key])
  | _ => none

/-- The names of a section, however it is spelled. -/
def declaredKeys (d : Document) (key : String) : List String :=
  match d.get? [key] with
  | some (.inline keys) => keys
  | _ => d.keysAt [key]

end Document

end BeanStream.Manifest
