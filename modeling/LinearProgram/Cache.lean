import LinearProgram.Sense
import LinearProgram.SolutionFile
import LinearProgram.Storage

/-!
# `LinearProgram.Cache`: results of earlier runs

A cache is a directory in which every key has a directory of its own
with up to two solutions: an optimal one, and the best feasible one so
far. The text of the model can stand beside them for whoever looks.

* `fetch` reads a slot for the variables at hand, `store` writes it.
* `offerFeasible` writes the feasible slot only if that improves it.
-/

set_option autoImplicit false

namespace LinearProgram

/-- The two solutions kept for a key. -/
inductive Slot where
  | optimal
  | feasible
deriving DecidableEq, Repr

/-- The name of a slot's file. -/
def Slot.file : Slot → String
  | optimal => "optimal.sol"
  | feasible => "feasible.sol"

/-- Why a slot could not be read or written. -/
inductive CacheError where
  | file (error : FileError)
  | number (error : NumberError)
deriving DecidableEq, Repr

/-- The wording of a failure. -/
def CacheError.message : CacheError → String
  | file error => error.message
  | number error => error.message

/-- A directory of results. -/
structure Cache where
  root : Path

namespace Cache

variable {δ : Type} [Storage δ]

/-- The directory of a key. -/
def directory (c : Cache) (key : String) : Path := c.root.join (Path.ofText key)

/-- The file of a slot. -/
def slotPath (c : Cache) (slot : Slot) (key : String) : Path := (c.directory key).join [slot.file]

/-- The file that holds the text of the model. -/
def modelPath (c : Cache) (key : String) : Path := (c.directory key).join ["model.lp"]

/-- Whether a slot is filled. -/
def holds (c : Cache) (files : δ) (slot : Slot) (key : String) : Bool :=
  Storage.isFile files (c.slotPath slot key)

/-- What the file of a slot says. -/
def slotFile (c : Cache) (files : δ) (slot : Slot) (key : String) :
    Except CacheError SolutionFile :=
  match readText files (c.slotPath slot key) with
  | .error e => .error (.file e)
  | .ok text =>
    match SolutionFile.ofText text with
    | .ok f => .ok f
    | .error e => .error (.number e)

/-- The solution in a slot, for the given variables. -/
def fetch (c : Cache) (files : δ) (slot : Slot) (key : String) (vars : VariableSet) :
    Except CacheError Solution :=
  (c.slotFile files slot key).map fun f => f.solution vars

/-- Fills a slot, and puts the text of the model beside it. -/
def store (c : Cache) (slot : Slot) (key : String) (s : Solution) (model : Option String) :
    Action δ FileError Unit := do
  Storage.createDirectories (c.directory key)
  writeText (c.slotPath slot key) (s.vector true)
  match model with
  | some text => writeText (c.modelPath key) text
  | none => pure ()

/-- Whether an objective value belongs into the feasible slot: the slot
is free, or holds a value that is improved. -/
def welcomes (c : Cache) (files : δ) (key : String) (sense : Sense) (objective : Float) :
    Except CacheError Bool :=
  if c.holds files .feasible key then
    (c.slotFile files .feasible key).map fun f => sense.improves objective f.objective
  else .ok true

/-- Fills the feasible slot if that improves it, and says whether it did. -/
def offerFeasible (c : Cache) (key : String) (s : Solution) (sense : Sense)
    (model : Option String) : Action δ CacheError Bool := fun files =>
  match c.welcomes files key sense s.objective with
  | .error e => (.error e, files)
  | .ok false => (.ok false, files)
  | .ok true =>
    match c.store .feasible key s model files with
    | (.ok (), files) => (.ok true, files)
    | (.error e, files) => (.error (.file e), files)

end Cache

end LinearProgram
