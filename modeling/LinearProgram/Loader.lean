import LinearProgram.Backend
import LinearProgram.Path
import LinearProgram.Text.Lowercase
import LinearProgram.Text.Blank

/-!
# `LinearProgram.Loader`: choosing a backend at run time

Backends are known by name. A caller gives names in order of preference
and the features that are needed; names from the environment come
first. The first name that loads a backend with all of these features
is taken, and no later name is tried.

* `candidateOrder` is the list of names to try, without repetitions.
* `adopt` tries them. The loader it asks has a state, so what was asked
  is part of what can be said about it.
* `libraryPath` is the file in which a backend of a name is looked for.
-/

set_option autoImplicit false

namespace LinearProgram

/-- The names in a list whose members are separated by semicolons. -/
def namesOfList (list : String) : List String :=
  ((parts list.toList).map Text.trim).filter (fun name => !name.isEmpty) |>.map String.ofList
where
  /-- The texts between semicolons. -/
  parts : List Char → List (List Char)
    | [] => [[]]
    | c :: rest =>
      if c = ';' then [] :: parts rest
      else
        match parts rest with
        | part :: others => (c :: part) :: others
        | [] => [[c]]

/-- The names without blanks around them, each at its first occurrence,
empty ones left out. -/
def distinctNames (names : List String) : List String :=
  ((names.map Text.trimmed).filter (· ≠ "")).foldl
    (fun seen name => if seen.contains name then seen else seen ++ [name]) []

/-- Which backends to look for. -/
structure LoaderConfig where
  /-- Names in order of preference. -/
  candidates : List String
  /-- Names that are tried before those. -/
  overrides : List String := []
  /-- Features that a backend must have. -/
  required : List Feature := []

/-- The names to try, in order. -/
def LoaderConfig.candidateOrder (config : LoaderConfig) : List String :=
  distinctNames (config.overrides ++ config.candidates)

/-- Why a name was passed over. -/
inductive Rejection where
  /-- No backend of this name could be loaded. -/
  | notLoaded (reason : String)
  /-- The backend lacks a required feature. -/
  | lacks (feature : Feature)
deriving DecidableEq, Repr

/-- The wording of a rejection. -/
def Rejection.text : Rejection → String
  | notLoaded reason => reason
  | lacks feature => "missing feature " ++ feature.text

/-- Why no backend was taken. -/
inductive LoadError where
  /-- There was no name to try. -/
  | noCandidates
  /-- Every name was tried and rejected. -/
  | exhausted (rejected : List (String × Rejection))
deriving DecidableEq, Repr

namespace LoadError

/-- The names that were tried. -/
def tried : LoadError → List String
  | noCandidates => []
  | exhausted rejected => rejected.map (·.1)

/-- A line for each name that was tried. -/
def reasons : LoadError → List String
  | noCandidates => []
  | exhausted rejected => rejected.map fun r => r.1 ++ ": " ++ r.2.text

/-- The names of a failed search. -/
def triedText (e : LoadError) : String :=
  "none of the solver backends [" ++ ", ".intercalate e.tried ++ "] could be loaded"

/-- The wording of a failed search. -/
def message : LoadError → String
  | noCandidates => "no solver backend candidates given"
  | e@(exhausted _) => e.triedText ++ ": " ++ "; ".intercalate e.reasons

end LoadError

/-- Finds the backend of a name, or says why there is none. -/
abbrev Loader (ρ σ : Type) := String → Action ρ String (Engine σ)

variable {ρ σ : Type}

/-- Tries names in order and takes the first backend that has the
required features. Otherwise every name is listed with its rejection. -/
def firstQualified (loader : Loader ρ σ) (required : List Feature) :
    List String → Action ρ (List (String × Rejection)) (Engine σ)
  | [], r => (.error [], r)
  | name :: rest, r =>
    match loader name r with
    | (.ok engine, r) =>
      match engine.backend.features.firstMissing required with
      | none => (.ok engine, r)
      | some feature => reject name (.lacks feature) (firstQualified loader required rest r)
    | (.error reason, r) => reject name (.notLoaded reason) (firstQualified loader required rest r)
where
  /-- Puts a rejection before those of later names. -/
  reject (name : String) (why : Rejection) :
      Except (List (String × Rejection)) (Engine σ) × ρ →
        Except (List (String × Rejection)) (Engine σ) × ρ
    | (.ok engine, r) => (.ok engine, r)
    | (.error others, r) => (.error ((name, why) :: others), r)

/-- Loads the first qualified backend and adopts it. -/
def adopt (config : LoaderConfig) (loader : Loader ρ σ) : Action ρ LoadError (Engine σ) := fun r =>
  match config.candidateOrder with
  | [] => (.error .noCandidates, r)
  | names =>
    match firstQualified loader config.required names r with
    | (.ok engine, r) => (.ok { engine with backend := engine.backend.adopted }, r)
    | (.error rejected, r) => (.error (.exhausted rejected), r)

/-- The file name of the library that holds a backend. -/
def libraryFile (name : String) : String := "liblpkit_" ++ Text.lowercase name ++ ".so"

/-- Where the library of a backend is looked for: in a directory, or
where the system looks for libraries. -/
def libraryPath (directory : Option String) (name : String) : Path :=
  let file := Path.ofText (libraryFile name)
  match directory with
  | some d => (Path.ofText d).join file
  | none => file

end LinearProgram
