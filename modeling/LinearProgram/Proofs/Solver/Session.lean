import LinearProgram.Proofs.Solver.Loading
import LinearProgram.Proofs.Solver.Solving

/-!
# `LinearProgram.Proofs.Solver.Session`: everything that can be done with a solver

A session is a solver together with what it shares with others: the
variables, whose attributes anyone who has a handle can change, and the
files.

* `Operation` lists what can happen, and `perform` does it. Where an
  operation fails, the session goes on with what it left.
* `run` does one thing after another, from a state like `start` on.
* `perform_loadText`, `perform_loadFile`, `perform_solve`,
  `perform_writeFile_snd` and `perform_changeVariable_snd` say of the
  operations that concern more than the solver what they do.
-/

set_option autoImplicit false

namespace LinearProgram

/-- What can be done with variables. -/
inductive VariableOperation where
  /-- A variable with bounds, which are checked. -/
  | create (name : String) (kind : Kind) (lower upper : Float)
  /-- A variable whose attributes need no check. -/
  | declare (name : String) (attributes : Attributes)
  | setStart (v : Variable) (start : Option Float)
  | setKind (v : Variable) (kind : Kind)
  | setLower (v : Variable) (lower : Float)
  | setUpper (v : Variable) (upper : Float)

/-- What an operation makes of the attributes of all variables. -/
def VariableOperation.apply (registry : Registry) :
    VariableOperation → Except ModelError Registry
  | create name kind lower upper =>
    match registry.create name kind lower upper with
    | .ok (_, registry) => .ok registry
    | .error e => .error e
  | declare name attributes => .ok (registry.declare name attributes).2
  | setStart v start => registry.setStart v start
  | setKind v kind => .ok (registry.setKind v kind)
  | setLower v lower => .ok (registry.setLower v lower)
  | setUpper v upper => .ok (registry.setUpper v upper)

/-- A solver, the variables and the files. -/
structure Session (σ δ : Type) where
  solver : Solver σ
  registry : Registry
  files : δ

/-- What can happen in a session. -/
inductive Operation (σ δ : Type) where
  /-- The settings are changed at will. -/
  | configure (f : Config → Config)
  | setRelativeGap (gap : Float)
  | setAbsoluteGap (gap : Float)
  | resetGaps
  | setEngine (engine : Engine σ)
  | setObjective (o : Objective)
  | addConstraint (c : Constraint Float)
  | addConstraints (cs : List (Constraint Float))
  | setStartValues (values : Assignment)
  | reset
  | loadText (text : String)
  | loadFile (path : Path)
  | writeFile (path : Path)
  | solve (times : Durations)
  /-- A variable is made or changed. -/
  | changeVariable (op : VariableOperation)
  /-- Others are at work on the files. -/
  | changeFiles (f : δ → δ)

/-- What an operation that succeeds answers. -/
inductive Answer where
  | done
  | problems (found : List LpText.Problem)
  | status (status : Status)

namespace Session

variable {σ δ : Type}

/-- A solver as it is made, with settings. -/
def start (engine : Engine σ) (config : Config) (registry : Registry) (files : δ) :
    Session σ δ where
  solver := { Solver.new engine with config }
  registry := registry
  files := files

/-- A session begins like this where the solver has the initial settings. -/
theorem solver_start_initial (engine : Engine σ) (registry : Registry) (files : δ) :
    (start engine .initial registry files).solver = Solver.new engine := rfl

/-- A session begins like this where the settings have been checked. -/
theorem solver_start_of_withConfig {engine : Engine σ} {config : Config} {s : Solver σ}
    (h : Solver.withConfig engine config = .ok s) (registry : Registry) (files : δ) :
    (start engine config registry files).solver = s := by
  unfold Solver.withConfig at h
  split at h
  · cases h
    rfl
  · cases h

/-- Does something to the solver alone. -/
def onSolver (x : Action (Solver σ) ModelError Unit) : Action (Session σ δ) SolverError Answer :=
  fun w =>
    match x w.solver with
    | (.ok (), solver) => (.ok .done, { w with solver })
    | (.error e, solver) => (.error (.model e), { w with solver })

/-- An operation on the solver alone leaves its state of the solver. -/
theorem onSolver_snd (x : Action (Solver σ) ModelError Unit) (w : Session σ δ) :
    (onSolver x w).2 = { w with solver := (x w.solver).2 } := by
  rcases hx : x w.solver with ⟨e | _, solver⟩ <;> simp only [onSolver, hx]

variable [Storage δ]

/-- Does what an operation says. -/
def perform : Operation σ δ → Action (Session σ δ) SolverError Answer
  | .configure f => onSolver (.change fun s => s.configure f)
  | .setRelativeGap gap => onSolver (Solver.setRelativeGap gap)
  | .setAbsoluteGap gap => onSolver (Solver.setAbsoluteGap gap)
  | .resetGaps => onSolver (.change Solver.resetGaps)
  | .setEngine engine => onSolver (.change (Solver.setEngine engine))
  | .setObjective o => onSolver (Solver.setObjective o)
  | .addConstraint c => onSolver (Solver.addConstraint c)
  | .addConstraints cs => onSolver (Solver.addConstraints cs)
  | .setStartValues values => fun w => onSolver (Solver.setStartValues w.registry values) w
  | .reset => onSolver (.change Solver.reset)
  | .loadText text => fun w =>
    match Solver.loadText text (w.solver, w.registry) with
    | (.ok problems, solver, registry) => (.ok (.problems problems), { w with solver, registry })
    | (.error e, solver, registry) => (.error (.model e), { w with solver, registry })
  | .loadFile path => fun w =>
    match Solver.loadLpFile w.files path (w.solver, w.registry) with
    | (.ok problems, solver, registry) => (.ok (.problems problems), { w with solver, registry })
    | (.error e, solver, registry) => (.error e, { w with solver, registry })
  | .writeFile path => fun w =>
    match Solver.writeLpFile w.registry path w.solver w.files with
    | (.ok (), files) => (.ok .done, { w with files })
    | (.error e, files) => (.error e, { w with files })
  | .solve times => fun w =>
    match Solver.solve w.registry times (w.solver, w.files) with
    | (.ok status, solver, files) => (.ok (.status status), { w with solver, files })
    | (.error e, solver, files) => (.error e, { w with solver, files })
  | .changeVariable op => fun w =>
    match op.apply w.registry with
    | .ok registry => (.ok .done, { w with registry })
    | .error e => (.error (.model e), w)
  | .changeFiles f => fun w => (.ok .done, { w with files := f w.files })

/-- The session after one thing after another has been done. -/
def run (ops : List (Operation σ δ)) (w : Session σ δ) : Session σ δ :=
  ops.foldl (fun w op => (perform op w).2) w

theorem run_append (ops ops' : List (Operation σ δ)) (w : Session σ δ) :
    run (ops ++ ops') w = run ops' (run ops w) := List.foldl_append

/-! ### What single operations do -/

/-- A text is always loaded. -/
theorem perform_loadText (text : String) (w : Session σ δ) :
    ∃ world, Solver.loadText text (w.solver, w.registry)
        = (.ok (LpText.read w.registry text).1.problems, world)
      ∧ perform (.loadText text) w
        = (.ok (.problems (LpText.read w.registry text).1.problems),
          { w with solver := world.1, registry := world.2 }) := by
  obtain ⟨all, heq, _⟩ := Solver.loadText_eq text w.solver w.registry
  exact ⟨_, heq, by simp only [perform, heq]⟩

/-- A file is loaded like its text, or it cannot be read and nothing
happens. -/
theorem perform_loadFile (path : Path) (w : Session σ δ) :
    (∃ text, readText w.files path = .ok text
        ∧ perform (.loadFile path) w = perform (.loadText text) w)
      ∨ ∃ e, readText w.files path = .error e
        ∧ perform (.loadFile path) w = (.error (.file e), w) := by
  rcases Solver.loadLpFile_cases w.files path w.solver w.registry with
    ⟨text, problems, world, hread, hload, heq⟩ | ⟨e, hread, heq⟩
  · exact .inl ⟨text, hread, by simp only [perform, heq, hload]⟩
  · exact .inr ⟨e, hread, by simp only [perform, heq]⟩

/-- A run answers and leaves what `solve` does. -/
theorem perform_solve_apply (times : Durations) (w : Session σ δ) :
    perform (.solve times) w
      = ((Solver.solve w.registry times (w.solver, w.files)).1.map .status,
        { w with
          solver := (Solver.solve w.registry times (w.solver, w.files)).2.1
          files := (Solver.solve w.registry times (w.solver, w.files)).2.2 }) := by
  rcases hsolve : Solver.solve w.registry times (w.solver, w.files) with ⟨e | status, solver, files⟩
  · simp only [perform, hsolve]
    rfl
  · simp only [perform, hsolve]
    rfl

/-- A run ends in one of the ways of `SolveOutcome`. -/
theorem perform_solve (times : Durations) (w : Session σ δ) :
    ∃ result solver files, Solver.SolveOutcome w.registry w.solver w.files result solver files
      ∧ perform (.solve times) w = (result.map .status, { w with solver, files }) :=
  ⟨_, _, _, Solver.solve_outcome w.registry times w.solver w.files, perform_solve_apply times w⟩

/-- Writing a file leaves the solver and the variables alone. -/
theorem perform_writeFile_snd (path : Path) (w : Session σ δ) :
    ∃ files, (perform (.writeFile path) w).2 = { w with files } := by
  rcases hwrite : Solver.writeLpFile w.registry path w.solver w.files with ⟨e | _, files⟩
  · exact ⟨files, by simp only [perform, hwrite]⟩
  · exact ⟨files, by simp only [perform, hwrite]⟩

/-- What is done to variables leaves all else alone. -/
theorem perform_changeVariable_snd (op : VariableOperation) (w : Session σ δ) :
    ∃ registry, (perform (.changeVariable op) w).2 = { w with registry } := by
  cases hop : op.apply w.registry with
  | ok registry => exact ⟨registry, by simp only [perform, hop]⟩
  | error e => exact ⟨w.registry, by simp only [perform, hop]⟩

end Session

end LinearProgram
