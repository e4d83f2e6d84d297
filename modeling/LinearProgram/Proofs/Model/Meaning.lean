import LinearProgram.Proofs.Binary64.Extended
import LinearProgram.Proofs.Model.Construction
import LinearProgram.Proofs.Model.LinearForms

/-!
# `LinearProgram.Proofs.Model.Meaning`: what constraints say

A constraint says of the value of its term how it is related to its
bounds (`Constraint.Holds`). Its guard is not asked here: a guard says
where the constraint has to hold.

Bounds may be infinite, so the arithmetic without rounding is that of
the extended real numbers. `Constraint.exact` is a constraint over
doubles with the numbers that the doubles stand for.

* `Term.evaluate_map_extended`: the exact value of a term is that of its
  form, where the variables have finite values.
* `holds_normalize`: the normal form says what the constraint says. The
  constant of the term changes sides, and a bound on the left is read
  from the other side (`Shape.encloses_normalize`).
* `exact_normalize`: over doubles this is so as long as no bound is
  rounded when the constant is taken away from it.
* `normalize_normalize`: a normal form is its own normal form. Doubles
  are not all equal to themselves, so `==` asks for more: numbers in the
  constraint (`beq_self`). Guards have them by what they are
  (`IsSwitch.isFinite`).

`normalize_keeps_meaning` sums up.
-/

set_option autoImplicit false

namespace LinearProgram

open Binary64 (value extended)

/-! ### What holds -/

section

variable {K : Type} [LE K]

/-- How a relation relates two numbers. -/
def Relation.Holds (x y : K) : Relation → Prop
  | atMost => x ≤ y
  | equal => x = y
  | atLeast => y ≤ x

theorem Relation.holds_flip {r : Relation} {x y : K} : r.flip.Holds x y ↔ r.Holds y x := by
  cases r with
  | atMost => exact Iff.rfl
  | equal => exact eq_comm
  | atLeast => exact Iff.rfl

/-- Whether a number satisfies the bounds. -/
def Shape.Encloses (y : K) : Shape K → Prop
  | left bound relation => relation.Holds bound y
  | right relation bound => relation.Holds y bound
  | equal bound => y = bound
  | range lower l r upper => l.Holds lower y ∧ r.Holds y upper

/-- Whether the value of the term satisfies the bounds. -/
def Constraint.Holds [Scalar K] (c : Constraint K) (values : Valuation K) : Prop :=
  c.shape.Encloses (c.term.evaluate values)

end

/-! ### Exact numbers -/

open scoped Classical in
/-- The extended real numbers, which are not rounded. -/
noncomputable instance : Scalar EReal where
  beq x y := decide (x = y)

section

variable {K L : Type}

/-- Replaces every bound. -/
def Shape.map (f : K → L) : Shape K → Shape L
  | left bound relation => left (f bound) relation
  | right relation bound => right relation (f bound)
  | equal bound => equal (f bound)
  | range lower l r upper => range (f lower) l r (f upper)

variable [Scalar K] [Scalar L]

/-- Replaces every coefficient and the constant. -/
def Term.map (f : K → L) (t : Term K) : Term L where
  coefficients := t.coefficients.filterMap fun c => keep (f c)
  constant := f t.constant
  nonzero v c h := by
    rw [OrderedMap.get?_filterMap] at h
    obtain ⟨d, _, hd⟩ := Option.bind_eq_some_iff.mp h
    obtain ⟨hc, rfl⟩ := keep_eq_some.mp hd
    exact hc

/-- Replaces the numbers of a row. -/
def Row.map (f : K → L) (row : Row K) : Row L := ⟨row.shape.map f, row.term.map f, row.name⟩

/-- Replaces the numbers of a constraint and of its guards. -/
def Constraint.map (f : K → L) : Constraint K → Constraint L
  | plain row => plain (row.map f)
  | guarded guard row => guarded (guard.map f) (row.map f)

end

/-- A constraint with the numbers that its doubles stand for. -/
noncomputable def Constraint.exact (c : Constraint Float) : Constraint EReal := c.map extended

namespace Term

/-- No summand of a finite term becomes zero. -/
theorem toList_map_extended {t : Term Float} (h : t.IsFinite) :
    (t.map extended).coefficients.toList
      = t.coefficients.toList.map fun p => (p.1, extended p.2) := by
  rw [← List.filterMap_eq_map]
  refine List.filterMap_congr fun p hp => ?_
  have hzero : (extended p.2 == 0) = false := by
    refine decide_eq_false fun hzero => ?_
    have hstored := t.nonzero p.1 p.2 (OrderedMap.mem_toList_iff.mp hp)
    exact Bool.false_ne_true (hstored.symm.trans
      ((Binary64.extended_eq_zero_iff (h.1 p hp)).mp hzero))
  show (keep (extended p.2)).map _ = _
  rw [keep_of_nonzero hzero]
  rfl

/-- The exact value of a term is that of its form, where the variables have
finite values. -/
theorem evaluate_map_extended {t : Term Float} (ht : t.IsFinite) {s : Valuation Float}
    (hs : ∀ p ∈ t.coefficients.toList, ((s.get? p.1).getD 0 : Float).isFinite = true) :
    (t.map extended).evaluate (s.filterMap fun x => some (extended x))
      = ((LinearForm.eval (valueAt s) t.form : ℚ) : ℝ) := by
  have hvalue : ∀ v, ((s.filterMap fun x => some (extended x)).get? v).getD 0
      = extended ((s.get? v).getD 0) := by
    intro v
    rw [OrderedMap.get?_filterMap]
    cases s.get? v with
    | none => exact Binary64.extended_zero.symm
    | some x => rfl
  have hproduct : ∀ p ∈ t.coefficients.toList,
      extended p.2 * ((s.filterMap fun x => some (extended x)).get? p.1).getD 0
        = ((product s p : ℚ) : ℝ) := by
    intro p hp
    rw [hvalue, Binary64.extended_of_isFinite (ht.1 p hp),
      Binary64.extended_of_isFinite (hs p hp), ← EReal.coe_mul, ← Rat.cast_mul]
    rfl
  have hadd : ∀ {x y : EReal} {p q : ℚ}, x = (p : ℝ) → y = (q : ℝ) → x + y = ((p + q : ℚ) : ℝ) := by
    intro x y p q hx hy
    rw [hx, hy, Rat.cast_add, EReal.coe_add]
  have hstart : (-0 : EReal) = ((0 : ℚ) : ℝ) := by
    rw [neg_zero, Rat.cast_zero, EReal.coe_zero]
  have hsum := foldl_add_exact (R := fun (x : EReal) (q : ℚ) => x = (q : ℝ)) (P := fun _ => True)
    (fun hx hy _ => hadd hx hy) hproduct hstart fun _ _ => trivial
  rw [evaluate, toList_map_extended ht, List.foldl_map, hsum, eval_form, zero_add, Rat.cast_add,
    EReal.coe_add]
  exact congrArg (_ + ·) (Binary64.extended_of_isFinite ht.2)

end Term

/-! ### The parts of a normal form -/

/-- The normal form of a row. -/
def Row.normalize {K : Type} [Scalar K] (row : Row K) : Row K where
  shape := row.shape.normalize row.term.constant
  term := row.term.setConstant 0
  name := row.name

namespace Constraint

section

variable {K : Type} [Scalar K]

theorem normalize_eq_mapRow (c : Constraint K) : c.normalize = c.mapRow Row.normalize := rfl

theorem shape_normalize (c : Constraint K) :
    c.normalize.shape = c.shape.normalize c.term.constant := by
  cases c <;> rfl

theorem term_normalize (c : Constraint K) : c.normalize.term = c.term.setConstant 0 := by
  cases c <;> rfl

theorem name_normalize (c : Constraint K) : c.normalize.name = c.name := by
  cases c <;> rfl

theorem guard_normalize (c : Constraint K) : c.normalize.guard = c.guard := by
  cases c <;> rfl

end

end Constraint

theorem Shape.normalize_ne_left {K : Type} [Scalar K] (shape : Shape K) (offset bound : K)
    (relation : Relation) : shape.normalize offset ≠ .left bound relation := by
  cases shape <;> exact nofun

/-! ### The meaning of a normal form -/

/-- A finite number changes sides. -/
theorem Relation.holds_sub_iff {r : Relation} {x b o : EReal} (hbot : o ≠ ⊥) (htop : o ≠ ⊤) :
    r.Holds x (b - o) ↔ r.Holds (x + o) b := by
  have hle : x ≤ b - o ↔ x + o ≤ b := EReal.le_sub_iff_add_le (.inl hbot) (.inl htop)
  have hge : b - o ≤ x ↔ b ≤ x + o := EReal.sub_le_iff_le_add (.inl hbot) (.inl htop)
  cases r with
  | atMost => exact hle
  | equal =>
      show x = b - o ↔ x + o = b
      rw [le_antisymm_iff, le_antisymm_iff, hle, hge]
  | atLeast => exact hge

theorem Shape.encloses_normalize {shape : Shape EReal} {y o : EReal} (hbot : o ≠ ⊥)
    (htop : o ≠ ⊤) : (shape.normalize o).Encloses y ↔ shape.Encloses (y + o) := by
  -- A bound on the left is one on the right of the flipped relation.
  have hleft : ∀ {r : Relation} {b : EReal}, r.Holds (b - o) y ↔ r.Holds b (y + o) := by
    intro r b
    rw [← Relation.holds_flip, Relation.holds_sub_iff hbot htop, Relation.holds_flip]
  cases shape with
  | left bound relation => exact Relation.holds_flip.trans hleft
  | right relation bound => exact Relation.holds_sub_iff hbot htop
  | equal bound => exact Relation.holds_sub_iff (r := .equal) hbot htop
  | range lower l r upper => exact and_congr hleft (Relation.holds_sub_iff hbot htop)

/-- The constant is added last. -/
theorem Term.evaluate_eq_add (t : Term EReal) (values : Valuation EReal) :
    t.evaluate values = (t.setConstant 0).evaluate values + t.constant := by
  show _ = (_ + 0) + _
  rw [add_zero]
  rfl

namespace Constraint

theorem holds_normalize {c : Constraint EReal} (hbot : c.term.constant ≠ ⊥)
    (htop : c.term.constant ≠ ⊤) (values : Valuation EReal) :
    c.normalize.Holds values ↔ c.Holds values := by
  rw [Holds, Holds, shape_normalize, term_normalize, Shape.encloses_normalize hbot htop,
    ← Term.evaluate_eq_add]

end Constraint

/-! ### Normal forms over doubles -/

/-- Whether no bound is rounded when a number is taken away from it. -/
def Shape.ShiftsExactly (shape : Shape Float) (offset : Float) : Prop :=
  shape.ForBounds fun bound =>
    bound.isFinite = true → Binary64.IsRepresentable (value bound - value offset)

section

variable {shape : Shape Float} {offset : Float}

theorem Shape.map_normalize (hbounds : shape.ForBounds (·.isNaN = false))
    (hoffset : offset.isFinite = true) (h : shape.ShiftsExactly offset) :
    (shape.normalize offset).map extended = (shape.map extended).normalize (extended offset) := by
  cases shape with
  | left bound relation =>
      exact congrArg (right relation.flip) (Binary64.extended_sub hbounds hoffset h)
  | right relation bound =>
      exact congrArg (right relation) (Binary64.extended_sub hbounds hoffset h)
  | equal bound => exact congrArg equal (Binary64.extended_sub hbounds hoffset h)
  | range lower l r upper =>
      exact congrArg₂ (range · l r ·) (Binary64.extended_sub hbounds.1 hoffset h.1)
        (Binary64.extended_sub hbounds.2 hoffset h.2)

theorem Shape.normalize_normalize (shape : Shape Float) (offset : Float) :
    (shape.normalize offset).normalize 0 = shape.normalize offset := by
  cases shape with
  | left bound relation => exact congrArg (right relation.flip) (Binary64.sub_zero _)
  | right relation bound => exact congrArg (right relation) (Binary64.sub_zero _)
  | equal bound => exact congrArg equal (Binary64.sub_zero _)
  | range lower l r upper =>
      exact congrArg₂ (range · l r ·) (Binary64.sub_zero _) (Binary64.sub_zero _)

theorem Shape.isNaN_normalize (hbounds : shape.ForBounds (·.isNaN = false))
    (hoffset : offset.isFinite = true) :
    (shape.normalize offset).ForBounds (·.isNaN = false) := by
  cases shape with
  | left bound relation => exact Binary64.isNaN_sub hbounds hoffset
  | right relation bound => exact Binary64.isNaN_sub hbounds hoffset
  | equal bound => exact Binary64.isNaN_sub hbounds hoffset
  | range lower l r upper =>
      exact ⟨Binary64.isNaN_sub hbounds.1 hoffset, Binary64.isNaN_sub hbounds.2 hoffset⟩

/-- Shapes are compared by relations and bounds. -/
theorem Shape.beq_self (h : shape.ForBounds (·.isNaN = false)) : (shape == shape) = true := by
  have hbeq : ∀ {x : Float}, x.isNaN = false → (x == x) = true := fun hx =>
    Binary64.beq_self (Binary64.code_le_of_isNaN hx)
  cases shape with
  | left bound relation =>
      show (bound == bound && relation == relation) = true
      rw [hbeq h, beq_self_eq_true]
      rfl
  | right relation bound =>
      show (relation == relation && bound == bound) = true
      rw [hbeq h, beq_self_eq_true]
      rfl
  | equal bound => exact hbeq h
  | range lower l r upper =>
      show (lower == lower && (l == l && (r == r && upper == upper))) = true
      rw [hbeq h.1, hbeq h.2, beq_self_eq_true, beq_self_eq_true]
      rfl

end

theorem Term.beq_self {t : Term Float} (h : t.IsFinite) : (t == t) = true :=
  (represents_form h).beq (represents_form h)

theorem Row.map_normalize (row : Row Float) (hbounds : row.shape.ForBounds (·.isNaN = false))
    (hconstant : row.term.constant.isFinite = true)
    (h : row.shape.ShiftsExactly row.term.constant) :
    row.normalize.map extended = (row.map extended).normalize := by
  have hterm : (row.term.setConstant 0).map extended = (row.term.map extended).setConstant 0 :=
    congrArg (row.term.map extended).setConstant Binary64.extended_zero
  rw [Row.map, Row.normalize, Shape.map_normalize hbounds hconstant h, hterm]
  rfl

theorem Row.normalize_normalize (row : Row Float) : row.normalize.normalize = row.normalize := by
  have hshape : row.normalize.shape.normalize row.normalize.term.constant = row.normalize.shape :=
    row.shape.normalize_normalize row.term.constant
  rw [normalize, hshape]
  rfl

theorem Row.beq_self {row : Row Float} (hbounds : row.shape.ForBounds (·.isNaN = false))
    (hterm : row.term.IsFinite) : (row == row) = true := by
  show (row.shape == row.shape && (row.term == row.term && row.name == row.name)) = true
  rw [Shape.beq_self hbounds, Term.beq_self hterm, beq_self_eq_true]
  rfl

namespace Constraint

variable {c : Constraint Float}

/-- The numbers of a guard are finite. -/
theorem IsSwitch.isFinite (h : c.IsSwitch) :
    c.shape.ForBounds (·.isNaN = false) ∧ c.term.IsFinite := by
  obtain ⟨⟨bound, hbound⟩, v, hv⟩ := h
  obtain ⟨hshape, -, hnumber⟩ := of_switchValue? hbound
  obtain ⟨hlist, hzero⟩ := loneVariable?_eq_some hv
  rw [hshape]
  refine ⟨hnumber, fun p hp => ?_, ?_⟩
  · rw [hlist, List.mem_singleton] at hp
    rw [hp]
    exact Binary64.isExactly_one.finite
  · rw [Binary64.isFinite_iff, Binary64.beq_zero_iff.mp hzero]
    decide

/-- A guard equals itself, and so do its own guards. -/
theorem IsBuilt.beq_self (hbuilt : c.IsBuilt) (hswitch : c.IsSwitch) : (c == c) = true := by
  -- The guard of a guard has been accepted in its turn.
  induction c with
  | plain row => exact Row.beq_self hswitch.isFinite.1 hswitch.isFinite.2
  | guarded guard row ih =>
      exact Bool.and_eq_true_iff.mpr
        ⟨ih hbuilt.1 hbuilt.2.1, Row.beq_self hswitch.isFinite.1 hswitch.isFinite.2⟩

theorem beq_self (hguard : ∀ g, c.guard = some g → g.IsBuilt ∧ g.IsSwitch)
    (hbounds : c.shape.ForBounds (·.isNaN = false)) (hterm : c.term.IsFinite) :
    (c == c) = true := by
  cases c with
  | plain row => exact Row.beq_self hbounds hterm
  | guarded guard row =>
      obtain ⟨hbuilt, hswitch⟩ := hguard guard rfl
      exact Bool.and_eq_true_iff.mpr ⟨hbuilt.beq_self hswitch, Row.beq_self hbounds hterm⟩

/-- The exact normal form is that of the exact constraint. -/
theorem exact_normalize (hbounds : c.shape.ForBounds (·.isNaN = false))
    (hconstant : c.term.constant.isFinite = true)
    (h : c.shape.ShiftsExactly c.term.constant) : c.normalize.exact = c.exact.normalize := by
  rw [normalize_eq_mapRow, normalize_eq_mapRow]
  cases c with
  | plain row => exact congrArg plain (row.map_normalize hbounds hconstant h)
  | guarded guard row =>
      exact congrArg (guarded (guard.map extended)) (row.map_normalize hbounds hconstant h)

theorem holds_exact_normalize (hterm : c.term.IsFinite) (values : Valuation EReal) :
    c.exact.normalize.Holds values ↔ c.exact.Holds values := by
  have hconstant : c.exact.term.constant = ((value c.term.constant : ℝ) : EReal) := by
    rw [← Binary64.extended_of_isFinite hterm.2]
    cases c <;> rfl
  refine holds_normalize ?_ ?_ values
  · rw [hconstant]
    exact EReal.coe_ne_bot _
  · rw [hconstant]
    exact EReal.coe_ne_top _

/-- A normal form has nothing left to move. -/
theorem normalize_normalize (c : Constraint Float) : c.normalize.normalize = c.normalize := by
  rw [normalize_eq_mapRow, normalize_eq_mapRow]
  cases c with
  | plain row => exact congrArg plain row.normalize_normalize
  | guarded guard row => exact congrArg (guarded guard) row.normalize_normalize

theorem normalize_beq_self (hguard : ∀ g, c.guard = some g → g.IsBuilt ∧ g.IsSwitch)
    (hbounds : c.shape.ForBounds (·.isNaN = false)) (hterm : c.term.IsFinite) :
    (c.normalize == c.normalize) = true := by
  refine beq_self ?_ ?_ ?_
  · rwa [guard_normalize]
  · rw [shape_normalize]
    exact Shape.isNaN_normalize hbounds hterm.2
  · rw [term_normalize]
    exact ⟨hterm.1, Binary64.isExactly_zero.finite⟩

/-- The normal form of a constraint says what the constraint says, over
exact numbers for all constraints, and over doubles where no bound is
rounded. It has no constant and no bound on the left, keeps everything
else, and is its own normal form. It also equals itself as `==` has it,
where the guard is one that can have been attached. -/
theorem normalize_keeps_meaning (c : Constraint Float) (hterm : c.term.IsFinite)
    (hbounds : c.shape.ForBounds (·.isNaN = false)) :
    (∀ values, c.exact.normalize.Holds values ↔ c.exact.Holds values)
      ∧ (c.shape.ShiftsExactly c.term.constant →
          ∀ values, c.normalize.exact.Holds values ↔ c.exact.Holds values)
      ∧ c.normalize.term.constant = 0
      ∧ (∀ bound relation, c.normalize.shape ≠ .left bound relation)
      ∧ c.normalize.term.coefficients = c.term.coefficients
      ∧ c.normalize.name = c.name ∧ c.normalize.guard = c.guard
      ∧ c.normalize.normalize = c.normalize
      ∧ ((∀ g, c.guard = some g → g.IsBuilt ∧ g.IsSwitch) →
          (c.normalize.normalize == c.normalize) = true) := by
  refine ⟨holds_exact_normalize hterm, fun h values => ?_, ?_, fun bound relation => ?_, ?_,
    c.name_normalize, c.guard_normalize, c.normalize_normalize, fun hguard => ?_⟩
  · rw [exact_normalize hbounds hterm.2 h]
    exact holds_exact_normalize hterm values
  · rw [term_normalize]
    rfl
  · rw [shape_normalize]
    exact c.shape.normalize_ne_left _ _ _
  · rw [term_normalize]
    rfl
  · rw [normalize_normalize]
    exact normalize_beq_self hguard hbounds hterm

/-- The constraint `10 <= 2 x + 3` under the guard `b = 1`. -/
def guardedFloor : Constraint Float :=
  .guarded (right (.ofVariable ⟨1, "b"⟩) .equal 1)
    ⟨.left 10 .atMost, (Term.weighted ⟨0, "x"⟩ 2).addConstant 3, some "floor"⟩

theorem normalize_guardedFloor :
    guardedFloor.normalize.shape = .right .atLeast 7
      ∧ (∀ values, guardedFloor.normalize.exact.Holds values ↔ guardedFloor.exact.Holds values)
      ∧ (guardedFloor.normalize.normalize == guardedFloor.normalize) = true := by
  have hterm : guardedFloor.term.IsFinite := by
    refine ⟨?_, ?_⟩ <;> decide +kernel
  have hbounds : guardedFloor.shape.ForBounds (·.isNaN = false) := by decide +kernel
  have hguard : ∀ g, guardedFloor.guard = some g → g.IsBuilt ∧ g.IsSwitch := by
    rintro g ⟨⟩
    exact ⟨isBuilt_right _ _ _, ⟨1, by decide +kernel⟩, ⟨1, "b"⟩, by decide +kernel⟩
  have hexact : guardedFloor.shape.ShiftsExactly guardedFloor.term.constant := by
    intro _
    have hten : value 10 = 10 := by decide +kernel
    have hthree : value guardedFloor.term.constant = 3 := by decide +kernel
    rw [hten, hthree, show (10 : ℚ) - 3 = (7 : ℕ) by norm_num]
    exact Binary64.isRepresentable_natCast (by decide)
  have hshape : guardedFloor.normalize.shape = .right .atLeast (10 - 3) := rfl
  obtain ⟨-, hholds, -, -, -, -, -, -, hbeq⟩ := normalize_keeps_meaning guardedFloor hterm hbounds
  exact ⟨hshape.trans (congrArg (Shape.right .atLeast) (by decide +kernel)), hholds hexact,
    hbeq hguard⟩

end Constraint

end LinearProgram
