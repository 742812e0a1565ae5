import BeanStream.Text.Quoted

/-!
# Token trees

Program text as a sequence of tokens, in which a **bracketed part is one token** holding the
tokens between its brackets. A mark knows whether it is **joined** to the mark after it, so that
`::` is one sign of two marks; this is the only thing that the printed form needs to know about
the spaces of the text a token came from. No text has groups without brackets in it, but what a
macro makes may have some. They are printed as what they hold, and a reader looks through them
(`spliced`).

Two views of a token: its printed form (`Token.text`, `render`) and the identifiers in it at any
depth (`Token.names`), with the search for some of them beside it (`mentions_iff`).
-/

namespace BeanStream.Source

/-- The pairs of brackets. -/
inductive Delimiter where
  | parenthesis
  | bracket
  | brace
  /-- No brackets at all: what a macro was given stands in a group that does not show. -/
  | invisible
  deriving DecidableEq, Repr

/-- A token. -/
inductive Token where
  | ident (text : String)
  | mark (char : Char) (joined : Bool)
  /-- A literal as it is written, with the text it stands for if it is one of a string. -/
  | literal (text : String) (value : Option String)
  | group (delimiter : Delimiter) (body : List Token)
  deriving Repr

/-! ### Printing -/

/-- Whether the next token follows without a space. -/
def Token.isJoined : Token → Bool
  | .mark _ joined => joined
  | _ => false

mutual

/-- A token as text. Braces keep a space between them and what they hold. -/
def Token.text : Token → String
  | .ident t => t
  | .mark c _ => c.toString
  | .literal t _ => t
  | .group .parenthesis body => "(" ++ render body ++ ")"
  | .group .bracket body => "[" ++ render body ++ "]"
  | .group .brace body => "\x7b " ++ render body ++ (if body.isEmpty then "\x7d" else " \x7d")
  | .group .invisible body => render body

/-- Tokens as text, with one space between two tokens that are not joined. -/
def render : List Token → String
  | [] => ""
  | [t] => t.text
  | t :: ts => t.text ++ (if t.isJoined then "" else " ") ++ render ts

end

/-! ### Groups that do not show -/

mutual

/-- What a token is to a reader that looks through groups without brackets. -/
def Token.opened : Token → List Token
  | .group .invisible body => spliced body
  | t => [t]

/-- Tokens with what stands in groups without brackets in place of the groups. -/
def spliced : List Token → List Token
  | [] => []
  | t :: ts => t.opened ++ spliced ts

end

/-! ### Identifiers at any depth -/

mutual

/-- The identifiers in a token. -/
def Token.names : Token → List String
  | .ident t => [t]
  | .group _ body => namesIn body
  | _ => []

/-- The identifiers in tokens. -/
def namesIn : List Token → List String
  | [] => []
  | t :: ts => t.names ++ namesIn ts

end

mutual

/-- Whether a token holds one of some identifiers. -/
def Token.mentions (wanted : List String) : Token → Bool
  | .ident t => wanted.contains t
  | .group _ body => mentions wanted body
  | _ => false

/-- Whether tokens hold one of some identifiers. -/
def mentions (wanted : List String) : List Token → Bool
  | [] => false
  | t :: ts => t.mentions wanted || mentions wanted ts

end

mutual

private theorem Token.mentions_iff_aux (wanted : List String) :
    (t : Token) → (t.mentions wanted = true ↔ ∃ n ∈ t.names, n ∈ wanted)
  | .ident _ => by simp [Token.mentions, Token.names]
  | .mark _ _ => by simp [Token.mentions, Token.names]
  | .literal _ _ => by simp [Token.mentions, Token.names]
  | .group _ body => by simpa [Token.mentions, Token.names] using mentions_iff_aux wanted body

private theorem mentions_iff_aux (wanted : List String) :
    (ts : List Token) → (mentions wanted ts = true ↔ ∃ n ∈ namesIn ts, n ∈ wanted)
  | [] => by simp [mentions, namesIn]
  | t :: ts => by
    simp [mentions, namesIn, Token.mentions_iff_aux wanted t, mentions_iff_aux wanted ts,
      or_and_right, exists_or]

end

/-- The search finds exactly the identifiers that occur at some depth. -/
theorem mentions_iff {wanted : List String} {ts : List Token} :
    mentions wanted ts = true ↔ ∃ n ∈ namesIn ts, n ∈ wanted :=
  mentions_iff_aux wanted ts

/-! ### Building tokens -/

/-- A sign of several marks, all but the last of them joined. -/
def signOf : List Char → List Token
  | [] => []
  | [c] => [.mark c false]
  | c :: cs => .mark c true :: signOf cs

/-- A sign of several marks. -/
def sign (s : String) : List Token := signOf s.toList

/-- Identifiers next to each other. -/
def words (names : List String) : List Token := names.map .ident

/-- An absolute path. -/
def absolutePath (segments : List String) : List Token :=
  segments.flatMap fun s => sign "::" ++ [.ident s]

/-- A lifetime. -/
def lifetime (label : String) : List Token := [.mark '\'' true, .ident label]

/-- Tokens between parentheses. -/
def parens (body : List Token) : List Token := [.group .parenthesis body]

/-- Tokens between brackets. -/
def brackets (body : List Token) : List Token := [.group .bracket body]

/-- Tokens between braces. -/
def braces (body : List Token) : List Token := [.group .brace body]

/-- Tokens between angle signs, which are marks and not a pair of brackets. -/
def angled (body : List Token) : List Token := sign "<" ++ body ++ sign ">"

/-- Parts with a sign between them. -/
def separated (s : String) (parts : List (List Token)) : List Token :=
  List.intercalate (sign s) parts

/-- The characters of a string literal. A zero character in front of an octal digit is written
in hexadecimal, where it cannot be read together with the digit. -/
def escaped : List Char → List String
  | [] => []
  | c :: cs =>
    (if c = '\x00' && cs.head?.any (fun d => '0' ≤ d && d ≤ '7') then "\\x00"
      else Text.quoteChar c) :: escaped cs

/-- A string literal. -/
def string (s : String) : Token :=
  .literal ("\"" ++ String.join (escaped s.toList) ++ "\"") (some s)

end BeanStream.Source
