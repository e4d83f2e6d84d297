import LinearProgram.LpText.Token
import LinearProgram.ModelError
import LinearProgram.Variable

/-!
# `LinearProgram.LpText.ReadError`: what is wrong with a statement

A statement that cannot be read is left out, and the reason is kept
with the number of its first line.
-/

set_option autoImplicit false

namespace LinearProgram.LpText

/-- Why a statement was left out. -/
inductive ReadError (K : Type) where
  | token (error : TokenError)
  /-- A statement before the first header. -/
  | outsideSections (text : String)
  /-- A statement behind the end. -/
  | afterEnd (text : String)
  | emptyExpression
  /-- A product that ends with a star, or a sign with nothing behind it. -/
  | incompleteExpression
  /-- A product of two variables; the second one is named. -/
  | twoVariables (name : String)
  /-- A token that does not belong into an expression. -/
  | unexpected (found : Token K)
  | missingRelation
  | tooManyRelations
  /-- A variable on an outer side of a range. -/
  | variableOuterSide
  /-- A constraint that cannot be made. -/
  | model (error : ModelError)
  /-- A bound with no variable standing alone on a side. -/
  | noLoneVariable
  /-- A bound with no variable standing alone in the middle. -/
  | noMiddleVariable
  | expectedNumber
  /-- Something else stands where a number should. -/
  | notANumber (found : Token K)
  | incompatibleBounds (left right : Relation)
  | unreadableBound (text : String)
  | notAName (word : String)
  /-- A variable declared to be of two kinds. -/
  | redeclared (name : String) (declared : Kind)

/-- The wording of a reason. -/
def ReadError.message : ReadError Float → String
  | token error => error.message
  | outsideSections text => "statement outside of any section: " ++ text
  | afterEnd text => "statement after END: " ++ text
  | emptyExpression => "empty expression"
  | incompleteExpression => "incomplete expression"
  | twoVariables name => "product of two variables near " ++ name
  | unexpected found => "unexpected " ++ found.text ++ " in expression"
  | missingRelation => "missing relation operator"
  | tooManyRelations => "too many relation operators"
  | variableOuterSide => "the outer sides of a ranged constraint must be constant"
  | model error => error.message
  | noLoneVariable => "a bound needs a single variable on one side"
  | noMiddleVariable => "a bound needs a single variable in the middle"
  | expectedNumber => "expected a number"
  | notANumber found => "expected a number, found " ++ found.text
  | incompatibleBounds left right =>
    "incompatible bound relations " ++ left.text ++ " and " ++ right.text
  | unreadableBound text => "cannot read bound: " ++ text
  | notAName word => "not a variable name: " ++ word
  | redeclared name declared => name ++ " is already declared " ++ declared.text

/-- A reason and the line of the statement. -/
structure Problem where
  line : Nat
  error : ReadError Float

/-- How a problem is reported. -/
def Problem.text (p : Problem) : String := "line " ++ toString p.line ++ ": " ++ p.error.message

end LinearProgram.LpText
