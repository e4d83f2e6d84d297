import LinearProgram.Decimal.Literal
import LinearProgram.Solution
import LinearProgram.VariableSet

/-!
# `LinearProgram.SolutionFile`: reading solution vectors

A solution vector is read line by line. What follows a number sign is a
comment, and the comment `objective value` carries the value of the
objective. Otherwise a line is a name and a value; further words, and
lines with fewer than two words, mean nothing. Of several lines for one
name the last counts.

* `ofText` reads a vector, `solution` makes a solution of it: a
  variable without a line has the value zero.
-/

set_option autoImplicit false

namespace LinearProgram

/-- What a solution vector says. -/
structure SolutionFile where
  objective : Float
  values : OrderedMap String Float

/-- Something that stands where a number should. -/
structure NumberError where
  literal : String
  reason : Decimal.LiteralError
deriving DecidableEq, Repr

/-- How a wrong number is reported. -/
def NumberError.message (e : NumberError) : String :=
  "invalid number in solution file '" ++ e.literal ++ "': " ++ e.reason.message

namespace SolutionFile

/-- A file that says nothing: the objective is zero. -/
def empty : SolutionFile := ⟨0, ∅⟩

/-- The number that a text spells, blanks around it aside. -/
def number (text : List Char) : Except NumberError Float :=
  let literal := Text.trim text
  match Decimal.read literal with
  | .ok x => .ok x
  | .error reason => .error ⟨String.ofList literal, reason⟩

/-- The words by which a comment is known to carry the objective. -/
def objectiveMark : List Char := "objective value".toList

/-- What the comment of a line says of the objective. -/
def takeComment (f : SolutionFile) (comment : Option (List Char)) :
    Except NumberError SolutionFile :=
  match comment.bind fun c => Text.stripHead? objectiveMark (Text.trim c) with
  | some value => (number value).map fun x => { f with objective := x }
  | none => .ok f

/-- What a line says apart from its comment. -/
def takeContent (f : SolutionFile) (content : List Char) : Except NumberError SolutionFile :=
  match Text.words content with
  | name :: value :: _ =>
    (number value).map fun x => { f with values := f.values.insert (String.ofList name) x }
  | _ => .ok f

/-- What a line says. -/
def takeLine (f : SolutionFile) (line : List Char) : Except NumberError SolutionFile :=
  let (content, comment) := Text.splitAt '#' line
  match f.takeComment comment with
  | .ok f => f.takeContent content
  | .error e => .error e

/-- Reads a solution vector. -/
def ofText (text : String) : Except NumberError SolutionFile :=
  (Text.lines text.toList).foldlM takeLine empty

/-- The solution for the variables of a model. -/
def solution (f : SolutionFile) (vars : VariableSet) : Solution :=
  .of f.objective
    (.ofList (vars.toList.map fun v => (v, (f.values.get? v.name).getD 0)))

end SolutionFile

end LinearProgram
