import LinearProgram.Action
import LinearProgram.Feature
import LinearProgram.Model
import LinearProgram.Solution
import LinearProgram.Status

/-!
# `LinearProgram.Backend`: what a solver asks of an optimization engine

A `Backend` is a record of operations on a state of its own: it is told
to start afresh, receives settings, variables, an objective and
constraints, and is then asked to solve. An operation that fails still
leaves a state behind.

Settings are optional: a backend that does not provide one ignores it.
The operations on several variables or constraints at once take them
one after another unless the backend has its own way.

* `Engine` is a backend together with its present state.
* `Backend.forwarding` passes every operation on to a backend. In this
  way a backend is kept as one of many (`Backend.boxed`), and bears
  another name once it has been loaded at run time (`Backend.adopted`).
-/

set_option autoImplicit false

namespace LinearProgram

/-- Why a backend refused. -/
inductive BackendError where
  | invalidProblem (reason : String)
  | unsupported (reason : String)
  | executionFailed (reason : String)
deriving DecidableEq, Repr

/-- The wording of a refusal. -/
def BackendError.message : BackendError → String
  | invalidProblem reason => "Invalid problem: " ++ reason
  | unsupported reason => "Not supported by this backend: " ++ reason
  | executionFailed reason => "Solver execution failed: " ++ reason

/-- An optimization engine with states in `σ`. -/
structure Backend (σ : Type) where
  name : String
  features : Features
  /-- Forgets the model. -/
  reset : σ → σ
  /-- Switches the engine's own messages on or off. -/
  setConsoleOutput : Bool → σ → σ
  addVariable : Variable × Attributes → Action σ BackendError Unit
  addConstraint : Constraint Float → Action σ BackendError Unit
  setObjective : Objective → Action σ BackendError Unit
  /-- Solves the model, with a value for every variable that was added. -/
  solve : Action σ BackendError (Status × Solution)
  addVariables : List (Variable × Attributes) → Action σ BackendError Unit :=
    Action.each addVariable
  addConstraints : List (Constraint Float) → Action σ BackendError Unit :=
    Action.each addConstraint
  setThreads : Nat → σ → σ := fun _ s => s
  /-- Limits the time, in seconds. -/
  setTimeout : Float → σ → σ := fun _ s => s
  setIntegerTolerance : Float → σ → σ := fun _ s => s
  setAbsoluteGap : Float → σ → σ := fun _ s => s
  setRelativeGap : Float → σ → σ := fun _ s => s
  setPresolve : Bool → σ → σ := fun _ s => s
  setStartValues : Assignment → Action σ BackendError Unit := fun _ => .done ()

/-- A backend that passes every operation on to another one. Also those
that could be left out are passed on: the other backend may have its own
way with them. -/
def Backend.forwarding {σ : Type} (b : Backend σ) (name : String) : Backend σ where
  name := name
  features := b.features
  reset state := b.reset state
  setConsoleOutput on := b.setConsoleOutput on
  addVariable v := b.addVariable v
  addConstraint c := b.addConstraint c
  setObjective o := b.setObjective o
  solve state := b.solve state
  addVariables vars := b.addVariables vars
  addConstraints cs := b.addConstraints cs
  setThreads threads := b.setThreads threads
  setTimeout seconds := b.setTimeout seconds
  setIntegerTolerance tolerance := b.setIntegerTolerance tolerance
  setAbsoluteGap gap := b.setAbsoluteGap gap
  setRelativeGap gap := b.setRelativeGap gap
  setPresolve on := b.setPresolve on
  setStartValues values := b.setStartValues values

/-- The backend as one that may be of any kind. -/
def Backend.boxed {σ : Type} (b : Backend σ) : Backend σ := b.forwarding b.name

/-- The backend under the name of one that was loaded at run time. -/
def Backend.adopted {σ : Type} (b : Backend σ) : Backend σ :=
  b.forwarding ("Dynamic: " ++ b.name)

/-- A backend and its present state. -/
structure Engine (σ : Type) where
  backend : Backend σ
  state : σ

end LinearProgram
