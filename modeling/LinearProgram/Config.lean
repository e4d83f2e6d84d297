import LinearProgram.ModelError

/-!
# `LinearProgram.Config`: the settings of a solver

Settings that are left open are left to the backend. `validate` checks
the numeric ones in a fixed order and reports the first that is out of
its range.
-/

set_option autoImplicit false

namespace LinearProgram

/-- The settings of a solver. -/
structure Config where
  /-- Silences the backend. -/
  quiet : Bool
  /-- Limits the time, in seconds. -/
  timeLimit : Option Float
  presolve : Bool
  /-- How many threads to use; zero leaves it to the backend. -/
  threads : Nat
  integerTolerance : Option Float
  relativeGap : Option Float
  absoluteGap : Option Float
  /-- Passes start values to the backend. -/
  warmStart : Bool
  /-- The directory of the cache; without one nothing is cached. -/
  cacheDir : Option String

namespace Config

/-- Everything is left open, and models are simplified first. -/
def initial : Config where
  quiet := false
  timeLimit := none
  presolve := true
  threads := 0
  integerTolerance := none
  relativeGap := none
  absoluteGap := none
  warmStart := false
  cacheDir := none

instance : Inhabited Config := ⟨initial⟩

/-- Whether a value lies in the range of a setting. No range contains a
value that is not a number. -/
def isLegal : Knob → Float → Bool
  | .timeLimit, value => 0 < value
  | .integerTolerance, value => 0 < value
  | .relativeGap, value => 0 ≤ value
  | .absoluteGap, value => 0 ≤ value

/-- Accepts a setting that is open or in its range. -/
def checkKnob (knob : Knob) : Option Float → Except ModelError Unit
  | none => .ok ()
  | some value => if isLegal knob value then .ok () else .error (.invalidParameter knob value)

/-- The value of a numeric setting. -/
def knob (c : Config) : Knob → Option Float
  | .timeLimit => c.timeLimit
  | .integerTolerance => c.integerTolerance
  | .relativeGap => c.relativeGap
  | .absoluteGap => c.absoluteGap

/-- The numeric settings, in the order in which they are checked. -/
def knobs : List Knob := [.timeLimit, .integerTolerance, .relativeGap, .absoluteGap]

/-- Checks every numeric setting. -/
def validate (c : Config) : Except ModelError Unit :=
  knobs.forM fun k => checkKnob k (c.knob k)

end Config

end LinearProgram
