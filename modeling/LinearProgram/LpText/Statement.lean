import LinearProgram.LpText.Section

/-!
# `LinearProgram.LpText.Statement`: from lines to statements

The lines of a text, without comments and blank lines, are headers and
contents, and contents that continue one another make one statement.
Which contents continue one another depends on the section alone: all
of an objective is one statement, and a constraint or a bound goes on
where a line ends with an operator or the next one begins with a
relation.

* `contents` numbers the lines, `pieces` finds the headers.
* `group` makes statements of the contents, in the order of the text. A
  statement bears the number of its first line.
-/

set_option autoImplicit false

namespace LinearProgram.LpText

/-- A text and the number of the line where it begins. -/
structure Numbered where
  line : Nat
  text : List Char
deriving DecidableEq, Repr

/-- A line without the comment behind a backslash and without blanks
around it. -/
def stripped (line : List Char) : List Char := Text.trim (line.takeWhile (· ≠ '\\'))

/-- Lines with numbers from `first` on, blank ones left out. -/
def numberedFrom (first : Nat) : List (List Char) → List Numbered
  | [] => []
  | line :: rest =>
    match stripped line with
    | [] => numberedFrom (first + 1) rest
    | text => ⟨first, text⟩ :: numberedFrom (first + 1) rest

/-- The lines of a text that are not blank, numbered from one. -/
def contents (text : List Char) : List Numbered := numberedFrom 1 (Text.lines text)

/-- What a line contributes: the opening of a section, or some content. -/
inductive Piece where
  | header (opened : Section)
  | content (content : Numbered)
deriving DecidableEq, Repr

/-- The pieces of a line. What follows a header is content. -/
def piecesOf (line : Numbered) : List Piece :=
  match header? line.text with
  | some (opened, []) => [.header opened]
  | some (opened, rest) => [.header opened, .content ⟨line.line, rest⟩]
  | none => [.content line]

/-- Whether a text ends with an operator. -/
def endsWithOperator (text : List Char) : Bool :=
  match text.getLast? with
  | some c => isOperator c
  | none => false

/-- Whether a text begins with a relation. -/
def startsWithRelation : List Char → Bool
  | [] => false
  | c :: _ => ['<', '>', '='].contains c

/-- Whether a content belongs to the statement before it. -/
def continues (place : Section) (before next : List Char) : Bool :=
  match place with
  | .objective _ => true
  | .constraints | .bounds => endsWithOperator before || startsWithRelation next
  | _ => false

/-- What a reader has to deal with, one after another. -/
inductive Item where
  | opening (opened : Section)
  | statement (place : Section) (statement : Numbered)
deriving DecidableEq, Repr

/-- The statement that has been collected, if any. -/
def collected (place : Section) : Option Numbered → List Item
  | none => []
  | some statement => [.statement place statement]

/-- Makes statements of pieces, in a section and with a statement begun. -/
def group (place : Section) (pending : Option Numbered) : List Piece → List Item
  | [] => collected place pending
  | .header opened :: rest => collected place pending ++ .opening opened :: group opened none rest
  | .content next :: rest =>
    match pending with
    | none => group place (some next) rest
    | some before =>
      if continues place before.text next.text then
        group place (some { before with text := before.text ++ ' ' :: next.text }) rest
      else .statement place before :: group place (some next) rest

/-- The openings and statements of a text. -/
def items (text : List Char) : List Item :=
  group .preamble none ((contents text).flatMap piecesOf)

end LinearProgram.LpText
