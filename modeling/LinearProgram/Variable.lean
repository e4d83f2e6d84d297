import LinearProgram.Decimal.Binary64
import LinearProgram.ModelError
import LinearProgram.OrderedMap

/-!
# `LinearProgram.Variable`: decision variables and their domains

A `Variable` is a handle: terms and constraints mention it, and it stays
the same while what is known about it changes. Two handles of one name
are different variables. What is known about a variable, its
`Attributes`, says which values it may take.

* `Attributes.check` accepts the domains a variable can be made with.
* `Attributes.admits` says whether a value lies in the domain.
-/

set_option autoImplicit false

namespace LinearProgram

/-- A handle of a variable: the number of its creation, and its name. -/
structure Variable where
  id : Nat
  name : String
deriving DecidableEq, Repr

namespace Variable

/-- Variables are ordered by creation. -/
instance : LT Variable where
  lt v w := v.id < w.id ∨ v.id = w.id ∧ v.name < w.name

instance : DecidableLT Variable := fun v w =>
  inferInstanceAs (Decidable (v.id < w.id ∨ v.id = w.id ∧ v.name < w.name))

theorem lt_iff {v w : Variable} : v < w ↔ v.id < w.id ∨ v.id = w.id ∧ v.name < w.name := Iff.rfl

instance : StrictKey Variable where
  irrefl v h := by
    rcases h with h | h
    · exact Nat.lt_irrefl _ h
    · exact String.lt_irrefl _ h.2
  trans {u v w} h₁ h₂ := by
    rcases h₁ with h₁ | ⟨h₁, h₁'⟩ <;> rcases h₂ with h₂ | ⟨h₂, h₂'⟩
    · exact .inl (Nat.lt_trans h₁ h₂)
    · exact .inl (h₂ ▸ h₁)
    · exact .inl (h₁ ▸ h₂)
    · exact .inr ⟨h₁.trans h₂, String.lt_trans h₁' h₂'⟩
  trichotomy v w := by
    rcases Nat.lt_trichotomy v.id w.id with h | h | h
    · exact .inl (.inl h)
    · rcases StrictKey.trichotomy v.name w.name with h' | h' | h'
      · exact .inl (.inr ⟨h, h'⟩)
      · refine .inr (.inl ?_)
        cases v; cases w; simp_all
      · exact .inr (.inr (.inr ⟨h.symm, h'⟩))
    · exact .inr (.inr (.inl h))

/-- Entries in the order of their variables' names. The order of
entries whose variables share a name stays. -/
def sortByName {α : Type} (entries : List (Variable × α)) : List (Variable × α) :=
  entries.mergeSort fun p q => decide (p.1.name ≤ q.1.name)

theorem sortByName_perm {α : Type} (entries : List (Variable × α)) :
    (sortByName entries).Perm entries := List.mergeSort_perm ..

end Variable

/-- Which values a variable may take between its bounds. -/
inductive Kind where
  /-- 0 and 1. -/
  | binary
  /-- Whole numbers. -/
  | integer
  /-- All finite numbers. -/
  | real
deriving DecidableEq, Repr

namespace Kind

/-- The name of a kind. -/
def text : Kind → String
  | binary => "BINARY"
  | integer => "INTEGER"
  | real => "REAL"

/-- Whether only whole numbers are of this kind. -/
def isIntegral : Kind → Bool
  | binary | integer => true
  | real => false

end Kind

/-- What is known about a variable. -/
structure Attributes where
  kind : Kind
  lower : Float
  upper : Float
  /-- A value from which a search may start. -/
  start : Option Float

namespace Attributes

open Binary64 (infinity isWhole)

/-- The attributes of a variable with bounds and without a start value. -/
def bounded (kind : Kind) (lower upper : Float) : Attributes := ⟨kind, lower, upper, none⟩

/-- The attributes of a variable without bounds. -/
def free (kind : Kind) : Attributes := bounded kind (-infinity) infinity

/-- A binary variable lies between 0 and 1. -/
def binary : Attributes := bounded .binary 0 1

instance : Inhabited Attributes := ⟨free .integer⟩

/-- Whether the bounds enclose no number at all. -/
def isVoid (lower upper : Float) : Bool :=
  lower.isNaN || upper.isNaN || lower == infinity || upper == -infinity || upper < lower

/-- Whether a bound of an integer variable is finite and not whole. -/
def isFractional (bound : Float) : Bool := bound.isFinite && !isWhole bound

/-- Accepts the attributes if their bounds suit their kind; `name` is
for the error. The start value is not looked at. -/
def check (a : Attributes) (name : String) : Except ModelError Unit :=
  if isVoid a.lower a.upper then .error (.illegalBounds name a.lower a.upper)
  else
    match a.kind with
    | .binary => if a.lower < 0 || 1 < a.upper then .error (.binaryBounds name) else .ok ()
    | .integer =>
      if isFractional a.lower then .error (.fractionalIntegerBound name a.lower)
      else if isFractional a.upper then .error (.fractionalIntegerBound name a.upper)
      else .ok ()
    | .real => .ok ()

/-- Whether a value lies in the domain. -/
def admits (a : Attributes) (value : Float) : Bool :=
  value.isFinite && a.lower ≤ value && value ≤ a.upper
    && (!a.kind.isIntegral || isWhole value)

end Attributes

end LinearProgram
