/-!
# `LinearProgram.Status`: how a run of a solver ended
-/

set_option autoImplicit false

namespace LinearProgram

/-- How a run of a solver ended. -/
inductive Status where
  /-- Nothing has been solved yet. -/
  | notSolved
  | optimal
  /-- A point was found, perhaps not the best one. -/
  | feasible
  | infeasible
  /-- The backend could not tell an infeasible model from an unbounded one. -/
  | infeasibleOrUnbound
  /-- The objective has no best value. -/
  | unbound
  /-- The time ran out after a point was found. -/
  | timeoutFeasible
  /-- The time ran out before any point was found. -/
  | timeoutInfeasible
  | error
  /-- The backend rejected the model. -/
  | invalid
  | unknown
  /-- Nothing has changed since the last run. -/
  | alreadySolved
deriving DecidableEq, Repr

namespace Status

/-- Every status, in the order in which they are listed. -/
def all : List Status :=
  [notSolved, optimal, feasible, infeasible, infeasibleOrUnbound, unbound, timeoutFeasible,
    timeoutInfeasible, error, invalid, unknown, alreadySolved]

theorem mem_all (s : Status) : s ∈ all := by cases s <;> decide

/-- The name of a status. -/
def text : Status → String
  | notSolved => "NOT_SOLVED"
  | optimal => "OPTIMAL"
  | feasible => "FEASIBLE"
  | infeasible => "INFEASIBLE"
  | infeasibleOrUnbound => "INFEASIBLE_OR_UNBOUND"
  | unbound => "UNBOUND"
  | timeoutFeasible => "TIMEOUT_FEASIBLE"
  | timeoutInfeasible => "TIMEOUT_INFEASIBLE"
  | error => "ERROR"
  | invalid => "INVALID"
  | unknown => "UNKNOWN"
  | alreadySolved => "ALREADY_SOLVED"

/-- Whether a run that ended so left a usable solution. -/
def hasSolution : Status → Bool
  | optimal | feasible | timeoutFeasible => true
  | _ => false

end Status

end LinearProgram
