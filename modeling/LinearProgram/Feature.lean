/-!
# `LinearProgram.Feature`: what a backend can do

A backend states which kinds of models and services it offers, and who
looks for a backend states which of them are needed.

* `Features.supportsAll` and `Features.firstMissing` are the two forms
  of the test, and `firstMissing_eq_none_iff` says that they agree.
-/

set_option autoImplicit false

namespace LinearProgram

/-- One capability of a backend. -/
inductive Feature where
  /-- Linear models with continuous variables. -/
  | lp
  /-- Linear models with integer variables only. -/
  | ilp
  /-- Quadratic objectives. -/
  | qp
  /-- Linear models with both kinds of variables. -/
  | milp
  /-- Constraints guarded by a binary variable. -/
  | indicators
  | logicalOps
  /-- A start from given values. -/
  | warmStart
deriving DecidableEq, Repr

namespace Feature

/-- Every feature, in the order in which they are listed. -/
def all : List Feature := [lp, ilp, qp, milp, indicators, logicalOps, warmStart]

theorem mem_all (f : Feature) : f ∈ all := by cases f <;> decide

/-- The name of a feature. -/
def text : Feature → String
  | lp => "lp"
  | ilp => "ilp"
  | qp => "qp"
  | milp => "milp"
  | indicators => "indicators"
  | logicalOps => "logicalops"
  | warmStart => "warmstart"

end Feature

/-- The capabilities of one backend. -/
structure Features where
  supports : Feature → Bool

namespace Features

/-- The listed capabilities and no others. -/
def ofList (offered : List Feature) : Features := ⟨fun f => offered.contains f⟩

/-- Whether every required feature is there. -/
def supportsAll (fs : Features) (required : List Feature) : Bool := required.all fs.supports

/-- The first required feature that is not there. -/
def firstMissing (fs : Features) (required : List Feature) : Option Feature :=
  required.find? fun f => !fs.supports f

theorem firstMissing_eq_none_iff {fs : Features} {required : List Feature} :
    fs.firstMissing required = none ↔ fs.supportsAll required = true := by
  simp [firstMissing, supportsAll]

end Features

end LinearProgram
