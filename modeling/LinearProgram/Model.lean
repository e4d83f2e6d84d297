import LinearProgram.Constraint
import LinearProgram.Sense

/-!
# `LinearProgram.Model`: objectives and models

A model is an objective and a list of constraints. Its variables are
those that occur in it, and no two of them may share a name.
-/

set_option autoImplicit false

namespace LinearProgram

/-- A term to be made small or large. -/
structure Objective where
  sense : Sense
  term : Term Float

namespace Objective

/-- Nothing is to be made small. -/
def zero : Objective := ⟨.minimize, 0⟩

instance : Inhabited Objective := ⟨zero⟩

instance : BEq Objective := ⟨fun a b => decide (a.sense = b.sense) && a.term == b.term⟩

/-- Whether the term is to be made large. -/
def isMaximize (o : Objective) : Bool := decide (o.sense = .maximize)

/-- How an objective is shown. -/
def text (o : Objective) : String :=
  (match o.sense with
    | .maximize => "max("
    | .minimize => "min(") ++ o.term.text ++ ")"

end Objective

/-- An objective and constraints. -/
structure Model where
  objective : Objective
  constraints : List (Constraint Float)

namespace Model

/-- The model without constraints and with nothing to be made small. -/
def empty : Model := ⟨.zero, []⟩

instance : EmptyCollection Model := ⟨empty⟩
instance : Inhabited Model := ⟨empty⟩

/-- Adds the variables of constraints to a set. -/
def extendByConstraints (s : VariableSet) :
    List (Constraint Float) → Except ModelError VariableSet
  | [] => .ok s
  | c :: rest =>
    match c.variableSet with
    | .error e => .error e
    | .ok own =>
      match s.extend own.toList with
      | (.ok (), s) => extendByConstraints s rest
      | (.error e, _) => .error e

/-- The variables of the objective and of the constraints, by name. -/
def variableSet (m : Model) : Except ModelError VariableSet :=
  match m.objective.term.variableSet with
  | .error e => .error e
  | .ok s => extendByConstraints s m.constraints

end Model

end LinearProgram
