import LinearProgram.Backend
import LinearProgram.Cache
import LinearProgram.Config
import LinearProgram.Fingerprint
import LinearProgram.LpText.Document
import LinearProgram.LpText.Writer

/-!
# `LinearProgram.Solver`: building a model and having it solved

A solver holds an engine, settings and the model under construction.
Every change marks the model as changed; solving an unchanged model
again is refused with the status `alreadySolved`. If a cache is set up,
an optimal solution that it holds for the text of the model is taken
without asking the engine, and new solutions are put into it. Trouble
with the cache never becomes trouble with the model.

* The operations on the model check first and then change the solver,
  so that one that fails changes nothing.
* `runEngine` is the one place that talks to a backend while solving:
  it starts afresh, passes the settings, then the model.
* `solve` puts these together.
-/

set_option autoImplicit false

namespace LinearProgram

/-- A model under construction and how it was solved last. -/
structure Solver (σ : Type) where
  engine : Engine σ
  config : Config
  model : Model
  /-- The variables of all constraints. -/
  constraintVariables : VariableSet
  /-- Start values given for this model; they precede those that the
  variables have themselves. -/
  startValues : Assignment
  solution : Solution
  status : Status
  /-- Whether anything has changed since the model was solved. -/
  dirty : Bool

/-- Why an operation of a solver failed. -/
inductive SolverError where
  | model (error : ModelError)
  | backend (error : BackendError)
  | file (error : FileError)

/-- The wording of a failure. -/
def SolverError.message : SolverError → String
  | model error => error.message
  | backend error => error.message
  | file error => "I/O error: " ++ error.message

namespace Solver

variable {σ : Type}

/-- A solver without a model, with the initial settings. -/
def new (engine : Engine σ) : Solver σ where
  engine := engine
  config := .initial
  model := ∅
  constraintVariables := ∅
  startValues := ∅
  solution := ∅
  status := .notSolved
  dirty := true

/-- A solver without a model, with settings in their ranges. -/
def withConfig (engine : Engine σ) (config : Config) : Except ModelError (Solver σ) :=
  match config.validate with
  | .ok () => .ok { new engine with config := config }
  | .error e => .error e

/-- The name of the backend. -/
def backendName (s : Solver σ) : String := s.engine.backend.name

/-- Whether the backend has a feature. -/
def supports (s : Solver σ) (f : Feature) : Bool := s.engine.backend.features.supports f

/-! ### Settings -/

/-- Changes the settings without a check. -/
def configure (f : Config → Config) (s : Solver σ) : Solver σ :=
  { s with config := f s.config, dirty := true }

/-- Changes the settings, if the value is neither negative nor
something that is not a number. -/
def setGap (knob : Knob) (gap : Float) (f : Config → Config) :
    Action (Solver σ) ModelError Unit := fun s =>
  if gap.isNaN || gap < 0 then (.error (.invalidParameter knob gap), s)
  else (.ok (), s.configure f)

/-- Sets the gap, relative to the objective, at which a search may stop. -/
def setRelativeGap (gap : Float) : Action (Solver σ) ModelError Unit :=
  setGap .relativeGap gap fun c => { c with relativeGap := some gap }

/-- Sets the gap at which a search may stop. -/
def setAbsoluteGap (gap : Float) : Action (Solver σ) ModelError Unit :=
  setGap .absoluteGap gap fun c => { c with absoluteGap := some gap }

/-- Leaves both gaps to the backend. -/
def resetGaps (s : Solver σ) : Solver σ :=
  s.configure fun c => { c with relativeGap := none, absoluteGap := none }

/-- Takes another engine for the same model. -/
def setEngine (engine : Engine σ) (s : Solver σ) : Solver σ := { s with engine, dirty := true }

/-! ### The model -/

/-- Accepts an objective whose variables have different names, also
from those of the constraints. -/
def checkObjective (s : Solver σ) (o : Objective) : Except ModelError Unit :=
  match o.term.variableSet with
  | .ok own => s.constraintVariables.check own.toList
  | .error e => .error e

/-- Replaces the objective. -/
def setObjective (o : Objective) : Action (Solver σ) ModelError Unit := fun s =>
  match s.checkObjective o with
  | .ok () => (.ok (), { s with model := { s.model with objective := o }, dirty := true })
  | .error e => (.error e, s)

/-- The variables of all constraints with those of a further one, if no
name stands for two variables then, those of the objective included. -/
def admitConstraint (s : Solver σ) (c : Constraint Float) : Except ModelError VariableSet := do
  let own ← c.variableSet
  s.constraintVariables.check own.toList
  let others ← s.model.objective.term.variableSet
  others.check own.toList
  match s.constraintVariables.extend own.toList with
  | (.ok (), all) => .ok all
  | (.error e, _) => .error e

/-- Adds a constraint. -/
def addConstraint (c : Constraint Float) : Action (Solver σ) ModelError Unit := fun s =>
  match s.admitConstraint c with
  | .ok all =>
    (.ok (), { s with
      model := { s.model with constraints := s.model.constraints ++ [c] }
      constraintVariables := all
      dirty := true })
  | .error e => (.error e, s)

/-- Adds constraints one after another, up to the first that fails. -/
def addConstraints (cs : List (Constraint Float)) : Action (Solver σ) ModelError Unit :=
  .each addConstraint cs

/-- The variables of the model. -/
def variableSet (s : Solver σ) : Except ModelError VariableSet := s.model.variableSet

/-- Accepts start values that their variables admit. -/
def checkStartValues (registry : Registry) (values : List (Variable × Float)) :
    Except ModelError Unit :=
  match values.find? fun p => !registry.admits p.1 p.2 with
  | some (v, value) => .error (.startOutsideDomain v.name value)
  | none => .ok ()

/-- Replaces the start values. -/
def setStartValues (registry : Registry) (values : Assignment) :
    Action (Solver σ) ModelError Unit := fun s =>
  match checkStartValues registry values.toList with
  | .ok () => (.ok (), { s with startValues := values, dirty := true })
  | .error e => (.error e, s)

/-- Forgets the model, its start values and the last result. The
settings stay. -/
def reset (s : Solver σ) : Solver σ :=
  { new { s.engine with state := s.engine.backend.reset s.engine.state } with config := s.config }

/-- The text of the model. -/
def lpText (registry : Registry) (s : Solver σ) : Except ModelError String :=
  s.variableSet.map fun vars => LpText.write registry s.model vars

/-- Takes over a model, without start values. -/
def loadModel (m : Model) : Action (Solver σ) ModelError Unit := do
  Action.change fun s : Solver σ =>
    { s with model := ∅, constraintVariables := ∅, startValues := ∅ }
  setObjective m.objective
  addConstraints m.constraints

/-- Replaces the model by what can be read of a text. The problems of
the text are the result; its variables are new in the registry. -/
def loadText (text : String) :
    Action (Solver σ × Registry) ModelError (List LpText.Problem) := fun (s, registry) =>
  let (document, registry) := LpText.read registry text
  match loadModel document.model s with
  | (.ok (), s) => (.ok document.problems, (s, registry))
  | (.error e, s) => (.error e, (s, registry))

/-! ### Solving -/

/-- The start values to pass on: for each variable the one given for
the model, else its own. They have to be admitted still. -/
def startAssignment (registry : Registry) (given : Assignment) :
    List Variable → Except ModelError Assignment
  | [] => .ok ∅
  | v :: rest =>
    match (given.get? v).or (registry.attributes v).start with
    | none => startAssignment registry given rest
    | some value =>
      if registry.admits v value then
        (startAssignment registry given rest).map fun a => a.insert v value
      else .error (.startOutsideDomain v.name value)

/-- Passes a setting on unless it is open. -/
def passOn {α : Type} (f : α → σ → σ) : Option α → σ → σ
  | some value, state => f value state
  | none, state => state

/-- Passes the settings to a backend. -/
def passConfig (b : Backend σ) (c : Config) (state : σ) : σ :=
  let state := if 0 < c.threads then b.setThreads c.threads state else state
  let state := b.setConsoleOutput (!c.quiet) state
  let state := passOn b.setTimeout c.timeLimit state
  let state := passOn b.setIntegerTolerance c.integerTolerance state
  let state := passOn b.setAbsoluteGap c.absoluteGap state
  let state := passOn b.setRelativeGap c.relativeGap state
  b.setPresolve c.presolve state

/-- Has a backend solve a model, from a fresh start. -/
def runEngine (b : Backend σ) (c : Config) (m : Model) (vars : List (Variable × Attributes))
    (start : Assignment) : Action σ BackendError (Status × Solution) := do
  Action.change b.reset
  Action.change (passConfig b c)
  b.addVariables vars
  b.setObjective m.objective
  b.addConstraints m.constraints
  if start.isEmpty then b.solve
  else do
    b.setStartValues start
    b.solve

/-- Rounds the values of binary and integer variables to whole numbers,
which backends report with some slack. -/
def roundIntegral (registry : Registry) (values : Assignment) : Assignment :=
  .ofList (values.toList.map fun p =>
    (p.1, if (registry.attributes p.1).kind.isIntegral then Binary64.roundHalfAway p.2 else p.2))

/-- Has the engine solve the model, and keeps the solution. -/
def solveFresh (registry : Registry) (times : Durations) (vars : VariableSet)
    (start : Assignment) : Action (Solver σ) BackendError Status := fun s =>
  let described := vars.toList.map fun v => (v, registry.attributes v)
  match runEngine s.engine.backend s.config s.model described start s.engine.state with
  | (.ok (status, found), state) =>
    (.ok status, { s with
      engine := { s.engine with state }
      solution := { found with values := roundIntegral registry found.values, times } })
  | (.error e, state) => (.error e, { s with engine := { s.engine with state } })

variable {δ : Type} [Storage δ]

/-- The optimal solution that a cache holds, if it can be read. -/
def cachedOptimal? (cache : Cache) (files : δ) (key : String) (vars : VariableSet) :
    Option Solution :=
  if cache.holds files .optimal key then (cache.fetch files .optimal key vars).toOption
  else none

/-- The feasible solution that a cache holds, if it can be read. -/
def cachedFeasible? (cache : Cache) (files : δ) (key : String) (vars : VariableSet) :
    Option Solution :=
  if cache.holds files .feasible key then (cache.fetch files .feasible key vars).toOption
  else none

/-- Puts a solution into a cache as its status allows. What goes wrong
is passed over. -/
def remember (cache : Cache) (key text : String) (sense : Sense) (status : Status) (s : Solution)
    (files : δ) : δ :=
  match status with
  | .optimal => (cache.store .optimal key s (some text) files).2
  | .feasible | .timeoutFeasible => (cache.offerFeasible key s sense (some text) files).2
  | _ => files

/-- The status and the solution after a run, with a feasible solution
from a cache where the time ran out before any was found. -/
def salvage (cache : Cache) (files : δ) (key : String) (vars : VariableSet)
    (status : Status) (found : Solution) : Status × Solution :=
  match status with
  | .timeoutInfeasible =>
    match cachedFeasible? cache files key vars with
    | some cached => (.timeoutFeasible, { cached with times := found.times })
    | none => (status, found)
  | _ => (status, found)

/-- Solves with the help of a cache. -/
def solveCached (cache : Cache) (registry : Registry) (times : Durations)
    (vars : VariableSet) (start : Assignment) :
    Action (Solver σ × δ) BackendError Status := fun (s, files) =>
  let text := LpText.write registry s.model vars
  let key := Fingerprint.ofText text
  match cachedOptimal? cache files key vars with
  | some solution => (.ok .optimal, ({ s with solution }, files))
  | none =>
    match solveFresh registry times vars start s with
    | (.error e, s) => (.error e, (s, files))
    | (.ok status, s) =>
      let (shown, solution) := salvage cache files key vars status s.solution
      (.ok shown, ({ s with solution },
        remember cache key text s.model.objective.sense status s.solution files))

/-- Solves a model that has changed, whether or not there is a cache. -/
def solveChanged (registry : Registry) (times : Durations) (vars : VariableSet)
    (start : Assignment) : Action (Solver σ × δ) BackendError Status := fun (s, files) =>
  match s.config.cacheDir with
  | some dir => solveCached ⟨Path.ofText dir⟩ registry times vars start (s, files)
  | none =>
    match solveFresh registry times vars start s with
    | (result, s) => (result, (s, files))

/-- The variables of the model and the start values to pass on. -/
def prepare (registry : Registry) (s : Solver σ) :
    Except ModelError (VariableSet × Assignment) := do
  let vars ← s.variableSet
  let start ←
    if s.config.warmStart then startAssignment registry s.startValues vars.toList
    else .ok ∅
  .ok (vars, start)

/-- Solves the model unless nothing has changed. `times` is how long
the phases of a fresh run take. -/
def solve (registry : Registry) (times : Durations) :
    Action (Solver σ × δ) SolverError Status := fun (s, files) =>
  if !s.dirty then (.ok .alreadySolved, (s, files))
  else
    match s.prepare registry with
    | .error e => (.error (.model e), (s, files))
    | .ok (vars, start) =>
      match solveChanged registry times vars start (s, files) with
      | (.error e, world) => (.error (.backend e), world)
      | (.ok status, (s, files)) => (.ok status, ({ s with status, dirty := false }, files))

/-! ### Files -/

/-- Writes the text of the model to a file. -/
def writeLpFile (registry : Registry) (path : Path) (s : Solver σ) : Action δ SolverError Unit :=
  fun files =>
    match s.lpText registry with
    | .error e => (.error (.model e), files)
    | .ok text =>
      match writeText path text files with
      | (.ok (), files) => (.ok (), files)
      | (.error e, files) => (.error (.file e), files)

/-- Replaces the model by what can be read of a file. -/
def loadLpFile (files : δ) (path : Path) :
    Action (Solver σ × Registry) SolverError (List LpText.Problem) := fun world =>
  match readText files path with
  | .error e => (.error (.file e), world)
  | .ok text =>
    match loadText text world with
    | (.ok problems, world) => (.ok problems, world)
    | (.error e, world) => (.error (.model e), world)

end Solver

end LinearProgram
