import LinearProgram.Model
import LinearProgram.Registry

/-!
# `LinearProgram.LpText.Writer`: writing model text

A model is written in one way only: the sections in a fixed order,
constraints normalized, summands and variables in the order of their
names. The text does therefore not depend on the order in which
variables were created, and equal texts are the sign of equal models.
-/

set_option autoImplicit false

namespace LinearProgram.LpText

open Decimal (plain)

/-- Lines as a text, each with a line feed behind it. -/
def unlines (lines : List String) : String := String.join (lines.map fun line => line ++ "\n")

/-- A line of a section. -/
def indented (line : String) : String := "  " ++ line

/-- What is written of a variable's bounds: nothing if they are zero
and infinity, and of bounds with one such side only the other one. -/
def boundsText? (name : String) (lower upper : Float) : Option String :=
  if lower == 0 && upper == Binary64.infinity then none
  else if lower == -Binary64.infinity && upper == Binary64.infinity then some (name ++ " FREE")
  else if lower == 0 then some (name ++ " <= " ++ plain upper)
  else if upper == Binary64.infinity then some (plain lower ++ " <= " ++ name)
  else some (plain lower ++ " <= " ++ name ++ " <= " ++ plain upper)

/-- The lines of the bounds. -/
def boundsLines (registry : Registry) (vars : VariableSet) : List String :=
  vars.toList.filterMap fun v =>
    boundsText? v.name (registry.attributes v).lower (registry.attributes v).upper

/-- The names of the variables of a kind. -/
def namesOfKind (registry : Registry) (vars : VariableSet) (kind : Kind) : List String :=
  (vars.toList.filter fun v => (registry.attributes v).kind = kind).map (·.name)

/-- The lines of a model. -/
def modelLines (registry : Registry) (m : Model) (vars : VariableSet) : List String :=
  [m.objective.sense.text, indented m.objective.term.text, "SUBJECT TO"]
    ++ m.constraints.map (fun c => indented c.normalize.text)
    ++ "BOUNDS" :: (boundsLines registry vars).map indented
    ++ "BINARY" :: (namesOfKind registry vars .binary).map indented
    ++ "GENERAL" :: (namesOfKind registry vars .integer).map indented
    ++ ["END"]

/-- A model as text. The given variables are those whose kinds and
bounds are written. -/
def write (registry : Registry) (m : Model) (vars : VariableSet) : String :=
  unlines (modelLines registry m vars)

end LinearProgram.LpText
