import LinearProgram.Text.Blank
import LinearProgram.Term

/-!
# `LinearProgram.Solution`: solutions and how they are written

A solution is the value of the objective, the values of the variables,
and the time that finding it took.

* `vector` is the form that is stored and printed: the objective in a
  comment, then a line for each variable.
* `text` is the form for readers, with the durations.
-/

set_option autoImplicit false

namespace LinearProgram

/-- Values of variables. -/
abbrev Assignment := Valuation Float

/-- Time spent in the phases of a solve, in nanoseconds. -/
structure Durations where
  preparation : Nat
  construction : Nat
  solving : Nat
deriving DecidableEq, Repr

namespace Durations

/-- No time. -/
def none : Durations := ⟨0, 0, 0⟩

instance : Inhabited Durations := ⟨none⟩

/-- The time of all phases. -/
def total (d : Durations) : Nat := d.preparation + d.construction + d.solving

/-- How many nanoseconds a second has. -/
def perSecond : Nat := 1000000000

/-- Nanoseconds as seconds: the whole seconds and the fraction are
rounded on their own and then added. -/
def seconds (nanoseconds : Nat) : Float :=
  Decimal.toFloat false ⟨nanoseconds / perSecond, 0⟩
    + Decimal.toFloat false ⟨nanoseconds % perSecond, 0⟩ / Decimal.toFloat false ⟨perSecond, 0⟩

/-- A duration in seconds, with six decimal places. -/
def secondsText (nanoseconds : Nat) : String := Decimal.fixed 6 (seconds nanoseconds)

end Durations

/-- A point, its objective value, and the time it took to find it. -/
structure Solution where
  objective : Float
  values : Assignment
  times : Durations

namespace Solution

open Decimal (plain)

/-- Nothing has been found. -/
def empty : Solution := ⟨0, ∅, .none⟩

instance : EmptyCollection Solution := ⟨empty⟩
instance : Inhabited Solution := ⟨empty⟩

/-- A solution that took no time. -/
def of (objective : Float) (values : Assignment) : Solution := ⟨objective, values, .none⟩

/-- The value of a variable, if it has one. -/
def value? (s : Solution) (v : Variable) : Option Float := s.values.get? v

/-- Whether no variable has a value. -/
def isEmpty (s : Solution) : Bool := s.values.isEmpty

/-- The values in the order of the variables' names. -/
def byName (s : Solution) : List (Variable × Float) := Variable.sortByName s.values.toList

/-- The width to which names are padded. -/
def nameWidth : Nat := 8

/-- The comment that carries the objective value. -/
def objectiveLine (objective : Float) : String := "# objective value " ++ plain objective ++ "\n"

/-- The line of a variable. The compact form leaves out values of zero
and the padding. -/
def valueLine (compact : Bool) (v : Variable) (value : Float) : String :=
  if compact then
    if value == 0 then "" else v.name ++ " " ++ plain value ++ "\n"
  else Text.padRight nameWidth v.name ++ " " ++ plain value ++ "\n"

/-- The solution vector: the objective, then the variables by name. -/
def vector (compact : Bool) (s : Solution) : String :=
  objectiveLine s.objective
    ++ String.join (s.byName.map fun p => valueLine compact p.1 p.2)

/-- The solution for a reader, durations included. -/
def text (s : Solution) : String :=
  "Objective: " ++ plain s.objective ++ "\nVariables:\n"
    ++ String.join (s.byName.map fun p =>
      "  " ++ Text.padRight nameWidth p.1.name ++ " = " ++ plain p.2 ++ "\n")
    ++ "Durations:\n  preparation:  " ++ Durations.secondsText s.times.preparation
    ++ "\n  construction: " ++ Durations.secondsText s.times.construction
    ++ "\n  solving:      " ++ Durations.secondsText s.times.solving

end Solution

end LinearProgram
