/-!
# `LinearProgram.Relation`: the three relations of a constraint

A constraint relates a term and a bound by `<=`, `=` or `>=`. A range
encloses its term between two relations that point the same way.

* `flip` is the relation seen from the other side.
* `enclosesWith` says which pairs make a range; an equation makes none.
-/

set_option autoImplicit false

namespace LinearProgram

/-- How a term is related to a bound. -/
inductive Relation where
  | atMost
  | equal
  | atLeast
deriving DecidableEq, Repr

namespace Relation

/-- How relations are written. -/
def text : Relation → String
  | atMost => "<="
  | equal => "="
  | atLeast => ">="

/-- The relation seen from the other side: `a <= b` says what `b >= a` says. -/
def flip : Relation → Relation
  | atMost => atLeast
  | equal => equal
  | atLeast => atMost

@[simp] theorem flip_flip (r : Relation) : r.flip.flip = r := by cases r <;> rfl

/-- Whether two relations can enclose a term: both `<=` or both `>=`. -/
def enclosesWith : Relation → Relation → Bool
  | atMost, atMost => true
  | atLeast, atLeast => true
  | _, _ => false

theorem enclosesWith_comm (r s : Relation) : r.enclosesWith s = s.enclosesWith r := by
  cases r <;> cases s <;> rfl

/-- Relations enclose a term exactly when they agree and neither is an equation. -/
theorem enclosesWith_iff {r s : Relation} : r.enclosesWith s = true ↔ r = s ∧ r ≠ equal := by
  cases r <;> cases s <;> simp [enclosesWith]

end Relation

end LinearProgram
