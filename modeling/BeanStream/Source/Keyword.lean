/-!
# Keywords

The words that name nothing by themselves. A mark in front of a keyword makes a name of it, and
then it is another word.
-/

namespace BeanStream.Source

/-- Words that name nothing. -/
def keywords : List String :=
  ["_", "abstract", "as", "async", "await", "become", "box", "break", "const", "continue",
    "crate", "do", "dyn", "else", "enum", "extern", "false", "final", "fn", "for", "if", "impl",
    "in", "let", "loop", "macro", "match", "mod", "move", "mut", "override", "priv", "pub", "ref",
    "return", "Self", "self", "static", "struct", "super", "trait", "true", "try", "type",
    "typeof", "unsafe", "unsized", "use", "virtual", "where", "while", "yield"]

/-- Whether a word names something. -/
def isName (word : String) : Bool := !keywords.contains word

end BeanStream.Source
