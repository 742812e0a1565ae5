import BeanStream.Source.Token

/-!
# Blanks and comments

What may stand between two tokens: blanks, and comments. A comment takes the rest of its line, or
reaches to the sign that closes it, with further comments inside.

**A comment that documents something is not left out.** It is read as an attribute, `#[doc = ".."]`
of what comes behind it or `#![doc = ".."]` of what it stands in (`documentation`).
-/

namespace BeanStream.Source

/-- The blanks from code point 128 on, with the two marks of direction. -/
def blankRanges : List (Nat × Nat) := [
  (133, 133), (160, 160), (5760, 5760), (8192, 8202), (8206, 8207), (8232, 8233), (8239, 8239),
  (8287, 8287), (12288, 12288)]

/-- Whether a character separates tokens. -/
def isBlank (c : Char) : Bool :=
  c = ' ' || ('\t' ≤ c && c ≤ '\r') || Text.inRanges blankRanges c.toNat

/-- A line up to its end, and the rest of the text. -/
def line : List Char → List Char × List Char
  | [] => ([], [])
  | '\n' :: rest | '\r' :: '\n' :: rest => ([], '\n' :: rest)
  | c :: rest =>
    let (body, rest) := line rest
    (c :: body, rest)

/-- The body of a comment, inside `depth` further comments, and the text behind it. -/
def block? : (depth : Nat) → List Char → Option (List Char × List Char)
  | _, [] => none
  | 0, '*' :: '/' :: rest => some ([], rest)
  | depth + 1, '*' :: '/' :: rest =>
    (block? depth rest).map fun (body, rest) => ('*' :: '/' :: body, rest)
  | depth, '/' :: '*' :: rest =>
    (block? (depth + 1) rest).map fun (body, rest) => ('/' :: '*' :: body, rest)
  | depth, c :: rest => (block? depth rest).map fun (body, rest) => (c :: body, rest)

/-- A documenting comment as an attribute, an inner one if it is about what it stands in. -/
def documentation (inner : Bool) (body : List Char) : List Token :=
  sign "#" ++ (if inner then sign "!" else []) ++
    brackets (words ["doc"] ++ sign "=" ++ [string (String.ofList body)])

/-- Whether a text starts with a comment. -/
def startsComment : List Char → Bool
  | '/' :: '/' :: _ | '/' :: '*' :: _ => true
  | _ => false

/-- Reads a comment: the tokens it stands for, and the text behind it. The sign behind the opening
one tells whether it documents something. -/
def comment? : List Char → Option (List Token × List Char)
  | '/' :: '/' :: text =>
    let (body, rest) := line text
    match body with
    | '!' :: body => some (documentation true body, rest)
    -- Four signs and more are decoration.
    | '/' :: '/' :: _ => some ([], rest)
    | '/' :: body => some (documentation false body, rest)
    | _ => some ([], rest)
  | '/' :: '*' :: text => do
    let (body, rest) ← block? 0 text
    match text with
    | '!' :: _ => some (documentation true body.tail, rest)
    -- The second star may already belong to the closing sign of an empty comment.
    | '*' :: '*' :: _ | '*' :: '/' :: _ => some ([], rest)
    | '*' :: _ => some (documentation false body.tail, rest)
    | _ => some ([], rest)
  | _ => none

end BeanStream.Source
