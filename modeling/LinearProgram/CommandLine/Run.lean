import LinearProgram.CommandLine.Arguments
import LinearProgram.ConfigFile
import LinearProgram.Loader
import LinearProgram.Solver

/-!
# `LinearProgram.CommandLine.Run`: solving the model of a command line

A run reads the settings, chooses a backend, reads the model and solves
it. What it prints accumulates on the way, so that a run which fails
has printed what came before.

* `run` is the whole, on a state of the file store and of the loader.
* `helpText` and `versionText` answer the other requests.
-/

set_option autoImplicit false

namespace LinearProgram.CommandLine

/-- Why a run failed. -/
inductive RunError where
  | config (error : ConfigError)
  | load (error : LoadError)
  | solver (error : SolverError)

/-- The wording of a failure. -/
def RunError.message : RunError → String
  | config error => error.message
  | load error => error.message
  | solver error => error.message

/-- What a run has printed, and why it failed if it did. -/
structure Outcome where
  output : String
  /-- Lines on what could not be read of the model. -/
  notices : List String
  failure : Option RunError

namespace Outcome

/-- Nothing has been printed. -/
def silent : Outcome := ⟨"", [], none⟩

/-- Prints a text. -/
def print (o : Outcome) (text : String) : Outcome := { o with output := o.output ++ text }

/-- Ends with a failure. -/
def fail (o : Outcome) (e : RunError) : Outcome := { o with failure := some e }

/-- The lines for the user's attention. -/
def errorLines (o : Outcome) : List String :=
  o.notices ++ match o.failure with
    | some e => ["error: " ++ e.message]
    | none => []

/-- Zero for success, one for failure. -/
def exitCode (o : Outcome) : Nat := if o.failure.isSome then 1 else 0

end Outcome

/-- What a run starts from. -/
structure Environment where
  /-- Names of backends that are tried before those of the command line. -/
  solverList : Option String
  /-- How long the phases of a solve take. -/
  times : Durations

variable {ρ σ δ : Type} [Storage δ]

/-- The settings of a run: those of the file, and over them those of the
command line. -/
def configOf (files : δ) (a : Arguments) : Except ConfigError Config :=
  (match a.config with
    | some path => Config.ofFile files (Path.ofText path)
    | none => .ok .initial).map fun (c : Config) =>
      { c with quiet := c.quiet || a.quiet, cacheDir := a.cacheDir.or c.cacheDir }

/-- The backends to look for. -/
def loaderConfigOf (env : Environment) (a : Arguments) : LoaderConfig where
  candidates := a.solvers
  overrides := (env.solverList.map namesOfList).getD []

/-- A solver with a qualified backend. -/
def makeSolver (env : Environment) (a : Arguments) (config : Config) (loader : Loader ρ σ) :
    Action ρ RunError (Solver σ) := fun r =>
  match adopt (loaderConfigOf env a) loader r with
  | (.error e, r) => (.error (.load e), r)
  | (.ok engine, r) =>
    match Solver.withConfig engine config with
    | .ok s => (.ok s, r)
    | .error e => (.error (.solver (.model e)), r)

/-- The line for a problem of the model's text. -/
def notice (a : Arguments) (p : LpText.Problem) : String := a.input ++ ":" ++ p.text

/-- Prints the solution, or writes it to the file for it. A file called
by two hyphens is the output. -/
def deliver (a : Arguments) (s : Solution) (o : Outcome) (files : δ) : Outcome × δ :=
  match a.output.filter (· ≠ "--") with
  | none => (o.print (s.vector false), files)
  | some path =>
    match writeText (Path.ofText path) (s.vector false) files with
    | (.ok (), files) => (o, files)
    | (.error e, files) => (o.fail (.solver (.file e)), files)

/-- Reads the model and solves it. -/
def solveInput (env : Environment) (a : Arguments) (s : Solver σ) (o : Outcome) (files : δ) :
    Outcome × δ :=
  match Solver.loadLpFile files (Path.ofText a.input) (s, ∅) with
  | (.error e, _) => (o.fail (.solver e), files)
  | (.ok problems, s, registry) =>
    let o := { o with notices := problems.map (notice a) }
    match Solver.solve registry env.times (s, files) with
    | (.error e, _, files) => (o.fail (.solver e), files)
    | (.ok status, s, files) =>
      let o := o.print ("The result is " ++ status.text ++ "\n")
      if status.hasSolution then deliver a s.solution o files else (o, files)

/-- Does what a command line asks for. -/
def run (env : Environment) (a : Arguments) (loader : Loader ρ σ) (r : ρ) (files : δ) :
    Outcome × δ :=
  match configOf files a with
  | .error e => (Outcome.silent.fail (.config e), files)
  | .ok config =>
    match makeSolver env a config loader r with
    | (.error e, _) => (Outcome.silent.fail e, files)
    | (.ok s, _) => solveInput env a s (Outcome.silent.print (s.backendName ++ "\n")) files

/-- The answer to a request for the version. -/
def versionText : String := "lpkit 0.1.0\n"

/-- The answer to a request for help. -/
def helpText : String := String.join
  ["Algebraic modeling layer for LP/MILP problems with runtime-selectable solver backends.\n",
    "\n",
    "Usage: lpkit [OPTIONS] <INPUT> [OUTPUT]\n",
    "\n",
    "Arguments:\n",
    "  <INPUT>   LP file to solve\n",
    "  [OUTPUT]  Where to write the solution vector; `--` or nothing for stdout\n",
    "\n",
    "Options:\n",
    "  -s, --solver <NAME>          Backend to try, in order; may be repeated\n",
    "      --config <FILE>          Solver configuration file (TOML)\n",
    "      --cache-dir <DIR>        Result cache directory\n",
    "  -q, --quiet                  Hide the backend's console output\n",
    "      --plugin-dir <DIR>       Directory holding backend plugin libraries\n",
    "      --log-level <LOG_LEVEL>  Log level, overridden by RUST_LOG [default: warn]\n",
    "  -h, --help                   Print help\n",
    "  -V, --version                Print version\n"]

end LinearProgram.CommandLine
