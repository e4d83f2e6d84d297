import LinearProgram.Decimal.Notation
import LinearProgram.Relation

/-!
# `LinearProgram.ModelError`: what is wrong with a model

A model is checked where it is built, never when it is solved, so each
illegal construction is a value of `ModelError` at the operation that
attempted it. `message` is its wording.
-/

set_option autoImplicit false

namespace LinearProgram

/-- The form of a constraint, as far as extending it to a range is
concerned. -/
inductive Form where
  | termFirst
  | boundFirst
  | threeSided
deriving DecidableEq, Repr

/-- How a form is called. -/
def Form.text : Form → String
  | .termFirst => "term-first"
  | .boundFirst => "bound-first"
  | .threeSided => "three-sided"

/-- A numeric setting with a range of legal values. -/
inductive Knob where
  | timeLimit
  | integerTolerance
  | relativeGap
  | absoluteGap
deriving DecidableEq, Repr

/-- The key of a setting. -/
def Knob.text : Knob → String
  | .timeLimit => "time_limit"
  | .integerTolerance => "int_feas_tol"
  | .relativeGap => "relative_mip_gap"
  | .absoluteGap => "absolute_mip_gap"

/-- An illegal construction. -/
inductive ModelError where
  /-- The bounds of a variable leave no value between them. -/
  | illegalBounds (name : String) (lower upper : Float)
  /-- The bounds of a binary variable reach beyond 0 and 1. -/
  | binaryBounds (name : String)
  /-- A finite bound of an integer variable is not whole. -/
  | fractionalIntegerBound (name : String) (bound : Float)
  /-- Two relations that cannot enclose a term. -/
  | incompatibleRelations (left right : Relation)
  /-- A relation between two constants. -/
  | bothSidesConstant
  /-- A relation without a constant side. -/
  | neitherSideConstant
  /-- A constraint that cannot be extended to a range on that side. -/
  | unchainable (form : Form)
  /-- A guard that does not fix a binary variable to 0 or 1. -/
  | notAnIndicator
  /-- Two variables of one name. -/
  | nameCollision (name : String)
  /-- A start value that its variable does not admit. -/
  | startOutsideDomain (name : String) (value : Float)
  /-- A setting outside its range. -/
  | invalidParameter (knob : Knob) (value : Float)

namespace ModelError

open Decimal (plain)

/-- The wording of an illegal construction. -/
def message : ModelError → String
  | illegalBounds name lower upper =>
    "the bounds of " ++ name ++ " are illegal: [" ++ plain lower ++ "; " ++ plain upper ++ "]"
  | binaryBounds name =>
    "the bounds of binary variable " ++ name ++ " are not right, only 0 and 1 are allowed"
  | fractionalIntegerBound name bound =>
    "bound " ++ plain bound ++ " of integer variable " ++ name ++ " is not an integer"
  | incompatibleRelations left right =>
    "the relations (" ++ left.text ++ ") and (" ++ right.text ++ ") are not compatible"
  | bothSidesConstant => "a relation needs exactly one constant side: both sides are constant"
  | neitherSideConstant =>
    "a relation needs exactly one constant side: neither side is constant"
  | unchainable form =>
    "a " ++ form.text ++ " constraint cannot be chained into a three-sided constraint"
  | notAnIndicator => "the used constraint is not an indicator (binary variable == 0 or 1)"
  | nameCollision name => "you defined multiple variables with the name: " ++ name
  | startOutsideDomain name value =>
    "start value " ++ plain value ++ " of " ++ name ++ " lies outside its domain"
  | invalidParameter knob value => "invalid value for " ++ knob.text ++ ": " ++ plain value

end ModelError

end LinearProgram
