/-!
# `LinearProgram.Sense`: the direction of an objective
-/

set_option autoImplicit false

namespace LinearProgram

/-- Whether an objective is to become small or large. -/
inductive Sense where
  | minimize
  | maximize
deriving DecidableEq, Repr

namespace Sense

/-- The name of a direction, which also opens the objective's section
of a written model. -/
def text : Sense → String
  | minimize => "MINIMIZE"
  | maximize => "MAXIMIZE"

/-- Whether `candidate` is strictly better than `incumbent`. Nothing
improves on a value that is not a number, nor does such a value improve
on anything. -/
def improves (sense : Sense) (candidate incumbent : Float) : Bool :=
  match sense with
  | minimize => candidate < incumbent
  | maximize => incumbent < candidate

end Sense

end LinearProgram
