import LinearProgram.Proofs.Model.Renaming

/-!
# `LinearProgram.Proofs.Model.Construction`: what constraints can be

A constraint is never written down field by field: it is made by a
constructor, extended by `chain`, named, normalized, or guarded by
`withIndicator`. What comes out is not every value of the type, and
`Constraint.IsBuilt` is what all of them have in common:

* an equation has the shape `equal`, never a bound beside `=`;
* the two relations of a range enclose the term;
* a guard is an equation of one variable with 0 or 1.

`isBuilt_left` and the lemmas behind it go through the constructors one
by one. `of_switchValue?` and `loneVariable?_eq_some` say what a guard over
doubles looks like.
-/

set_option autoImplicit false
set_option linter.unusedSectionVars false

namespace LinearProgram

/-- Whether all numbers of a term are finite. -/
def Term.IsFinite (t : Term Float) : Prop :=
  (∀ p ∈ t.coefficients.toList, p.2.isFinite = true) ∧ t.constant.isFinite = true

variable {K : Type} [Scalar K]

/-- Whether every bound has a property. -/
def Shape.ForBounds (P : K → Prop) : Shape K → Prop
  | left bound _ | right _ bound | equal bound => P bound
  | range lower _ _ upper => P lower ∧ P upper

instance (P : K → Prop) [DecidablePred P] (shape : Shape K) : Decidable (shape.ForBounds P) :=
  match shape with
  | .left bound _ | .right _ bound | .equal bound => inferInstanceAs (Decidable (P bound))
  | .range lower _ _ upper => inferInstanceAs (Decidable (P lower ∧ P upper))

/-- Whether a constructor can have made a shape. -/
def Shape.IsBuilt : Shape K → Prop
  | left _ relation => relation ≠ .equal
  | right relation _ => relation ≠ .equal
  | equal _ => True
  | range _ l r _ => l.enclosesWith r = true

namespace Shape

theorem isBuilt_ofLeft (bound : K) (relation : Relation) : (ofLeft bound relation).IsBuilt := by
  cases relation with
  | atMost => exact nofun
  | equal => trivial
  | atLeast => exact nofun

theorem isBuilt_ofRight (relation : Relation) (bound : K) : (ofRight relation bound).IsBuilt := by
  cases relation with
  | atMost => exact nofun
  | equal => trivial
  | atLeast => exact nofun

theorem ofRange_eq_ok_iff {B : Type} {lower upper : B} {l r : Relation} {shape : Shape B} :
    ofRange lower l r upper = .ok shape
      ↔ l.enclosesWith r = true ∧ shape = .range lower l r upper := by
  unfold ofRange
  cases l.enclosesWith r with
  | true => exact ⟨fun h => ⟨rfl, by cases h; rfl⟩, fun h => by rw [h.2]; rfl⟩
  | false => exact ⟨fun h => (nomatch h), fun h => (nomatch h.1)⟩

theorem isBuilt_of_ofRange {lower upper : K} {l r : Relation} {shape : Shape K}
    (h : ofRange lower l r upper = .ok shape) : shape.IsBuilt := by
  obtain ⟨hrelations, rfl⟩ := ofRange_eq_ok_iff.mp h
  exact hrelations

theorem isBuilt_of_chain {relation : Relation} {upper : K} {shape shape' : Shape K}
    (h : shape.chain relation upper = .ok shape') : shape'.IsBuilt := by
  cases shape with
  | left lower rel => exact isBuilt_of_ofRange h
  | right rel bound => cases h
  | equal lower => exact isBuilt_of_ofRange h
  | range lower l r upper => cases h

theorem isBuilt_of_chainLeft {relation : Relation} {lower : K} {shape shape' : Shape K}
    (h : shape.chainLeft lower relation = .ok shape') : shape'.IsBuilt := by
  cases shape with
  | left bound rel => cases h
  | right rel upper => exact isBuilt_of_ofRange h
  | equal upper => exact isBuilt_of_ofRange h
  | range lower l r upper => cases h

theorem IsBuilt.normalize {shape : Shape K} (h : shape.IsBuilt) (offset : K) :
    (shape.normalize offset).IsBuilt := by
  cases shape with
  | left bound relation =>
      intro hflip
      have hequal : relation = .equal := by
        rw [← Relation.flip_flip relation, hflip]
        rfl
      exact h hequal
  | right relation bound => exact h
  | equal bound => trivial
  | range lower l r upper => exact h

end Shape

/-- What is changed is there before the change. -/
theorem map_eq_ok_iff {ε α β : Type} {f : α → β} {x : Except ε α} {b : β} :
    x.map f = .ok b ↔ ∃ a, x = .ok a ∧ b = f a := by
  cases x with
  | error e => exact ⟨nofun, nofun⟩
  | ok a => exact ⟨fun h => ⟨a, rfl, by cases h; rfl⟩, fun ⟨_, h, hb⟩ => by cases h; rw [hb]; rfl⟩

namespace Constraint

/-- Whether a constraint says of one variable that it is 0 or that it is
1, as far as that can be seen without its kind. -/
def IsSwitch (c : Constraint K) : Prop :=
  (∃ value, switchValue? c.shape = some value) ∧ ∃ v, loneVariable? c.term = some v

/-- Whether the operations on constraints can have made a constraint. -/
def IsBuilt : Constraint K → Prop
  | plain row => row.shape.IsBuilt
  | guarded guard row => guard.IsBuilt ∧ guard.IsSwitch ∧ row.shape.IsBuilt

theorem isBuilt_left (bound : K) (relation : Relation) (t : Term K) :
    (left bound relation t).IsBuilt := Shape.isBuilt_ofLeft bound relation

theorem isBuilt_right (t : Term K) (relation : Relation) (bound : K) :
    (right t relation bound).IsBuilt := Shape.isBuilt_ofRight relation bound

theorem isBuilt_between (t : Term K) (lower upper : K) : (between t lower upper).IsBuilt := by
  show Relation.enclosesWith .atMost .atMost = true
  rfl

theorem isBuilt_of_range {lower upper : K} {l r : Relation} {t : Term K} {c : Constraint K}
    (h : range lower l t r upper = .ok c) : c.IsBuilt := by
  obtain ⟨shape, hshape, rfl⟩ := map_eq_ok_iff.mp h
  exact Shape.isBuilt_of_ofRange hshape

theorem isBuilt_of_relate {lhs rhs : Term K} {relation : Relation} {c : Constraint K}
    (h : relate lhs relation rhs = .ok c) : c.IsBuilt := by
  unfold relate at h
  split at h
  · cases h
  · cases h
  · cases h
    exact isBuilt_left _ _ _
  · cases h
    exact isBuilt_right _ _ _

/-- A change of the row keeps the guard. -/
theorem IsBuilt.mapRow {c : Constraint K} (h : c.IsBuilt) {f : Row K → Row K}
    (hf : (f c.row).shape.IsBuilt) : (c.mapRow f).IsBuilt := by
  cases c with
  | plain row => exact hf
  | guarded guard row => exact ⟨h.1, h.2.1, hf⟩

theorem IsBuilt.shape {c : Constraint K} (h : c.IsBuilt) : c.shape.IsBuilt := by
  cases c with
  | plain row => exact h
  | guarded guard row => exact h.2.2

theorem IsBuilt.named {c : Constraint K} (h : c.IsBuilt) (name : String) :
    (c.named name).IsBuilt := h.mapRow h.shape

theorem IsBuilt.normalize {c : Constraint K} (h : c.IsBuilt) : c.normalize.IsBuilt :=
  h.mapRow (h.shape.normalize _)

/-- A constraint with another shape that a constructor can have made. -/
theorem IsBuilt.reshape {c c' : Constraint K} (h : c.IsBuilt)
    {f : Shape K → Except ModelError (Shape K)}
    (hf : ∀ shape, f c.shape = .ok shape → shape.IsBuilt) (hc' : c.reshape f = .ok c') :
    c'.IsBuilt := by
  obtain ⟨shape, hshape, rfl⟩ := map_eq_ok_iff.mp hc'
  exact h.mapRow (hf shape hshape)

theorem IsBuilt.chain {c c' : Constraint K} (h : c.IsBuilt) {relation : Relation} {upper : K}
    (hc' : c.chain relation upper = .ok c') : c'.IsBuilt :=
  h.reshape (fun _ => Shape.isBuilt_of_chain) hc'

theorem IsBuilt.chainLeft {c c' : Constraint K} (h : c.IsBuilt) {relation : Relation} {lower : K}
    (hc' : Constraint.chainLeft lower relation c = .ok c') : c'.IsBuilt :=
  h.reshape (fun _ => Shape.isBuilt_of_chainLeft) hc'

/-- An accepted guard tests a variable for 0 or 1. -/
theorem isSwitch_of_isIndicator {registry : Registry} {guard : Constraint K}
    (h : guard.isIndicator registry = true) : guard.IsSwitch := by
  unfold isIndicator indicatorLiteral? at h
  split at h
  · rename_i value v hvalue hv
    exact ⟨⟨value, hvalue⟩, v, hv⟩
  · cases h

theorem IsBuilt.withIndicator {registry : Registry} {c guard c' : Constraint K} (h : c.IsBuilt)
    (hguard : guard.IsBuilt) (hc' : c.withIndicator registry guard = .ok c') : c'.IsBuilt := by
  unfold Constraint.withIndicator at hc'
  split at hc'
  · rename_i hindicator
    cases hc'
    exact ⟨hguard, isSwitch_of_isIndicator hindicator, h.shape⟩
  · cases hc'

/-- A guard is an equation. -/
theorem IsSwitch.shape_eq {c : Constraint K} (h : c.IsSwitch) : ∃ bound, c.shape = .equal bound := by
  obtain ⟨⟨value, hvalue⟩, _⟩ := h
  unfold switchValue? at hvalue
  split at hvalue
  · rename_i bound hshape
    exact ⟨bound, hshape⟩
  · cases hvalue

end Constraint

/-! ### Guards over doubles -/

/-- The bound of a guard is 0, with or without a sign, or 1. -/
theorem of_switchValue? {shape : Shape Float} {value : Float}
    (h : Constraint.switchValue? shape = some value) :
    shape = .equal value ∧ ((value == 0) = true ∨ value = 1) ∧ value.isNaN = false := by
  unfold Constraint.switchValue? at h
  split at h
  · split at h
    · rename_i hswitch
      cases h
      rw [Bool.or_eq_true, Binary64.beq_one_iff] at hswitch
      refine ⟨rfl, hswitch, ?_⟩
      rw [← Bool.not_eq_true, Binary64.isNaN_iff]
      rcases hswitch with hzero | rfl
      · rw [Binary64.beq_zero_iff.mp hzero]
        decide
      · decide
    · cases h
  · cases h

theorem loneVariable?_eq_some {t : Term Float} {v : Variable}
    (h : Constraint.loneVariable? t = some v) :
    t.coefficients.toList = [(v, 1)] ∧ (t.constant == 0) = true := by
  unfold Constraint.loneVariable? at h
  split at h
  · rename_i w c hlist
    split at h
    · rename_i hconditions
      rw [Bool.and_eq_true] at hconditions
      cases h
      rw [hlist, Binary64.beq_one_iff.mp hconditions.2]
      exact ⟨rfl, hconditions.1⟩
    · cases h
  · cases h

end LinearProgram
