import LinearProgram.Decimal.Shortest
import LinearProgram.Proofs.Binary64.Rounding

/-!
# `LinearProgram.Proofs.Decimal.Nearest`: shortest decimals read back

* `nearestCode_eq`: the two bounds that keep extreme powers of ten from
  being computed do not change which double is nearest.
* `nearestCode_expansion`: the exact expansion of a code reads back.
* `nearestCode_shortest`: so does the shortest decimal.

The search for the shortest decimal stops at one that has been read
back, so its result needs no argument about intervals; only the exact
expansion, which stands where the search ends, has to be computed.
-/

set_option autoImplicit false

namespace LinearProgram.Decimal

theorem tenTo_pos (p : Int) : 0 < tenTo p := Nat.pow_pos (by decide)

theorem tenTo_of_nonpos {p : Int} (h : p ≤ 0) : tenTo p = 1 := by
  rw [tenTo, show p.toNat = 0 by omega, Nat.pow_eq, Nat.pow_zero]

/-- Three binary places are fewer than one decimal place. -/
theorem two_pow_three_mul_le (n : Nat) : 2 ^ (3 * n) ≤ Nat.pow 10 n := by
  rw [Nat.pow_mul]
  exact Nat.pow_le_pow_left (by decide) n

/-- A value small by its power of ten lies below half the least double:
its digits are below `2 ^ (log2 digits + 1)`. -/
theorem nearestCode_of_isTiny {d : Decimal} (h : d.isTiny = true) :
    Binary64.nearestCode (d.digits * tenTo d.power) (tenTo (-d.power)) = 0 := by
  simp only [isTiny, decide_eq_true_eq] at h
  apply Binary64.nearestCode_of_lt (tenTo_pos _)
  have hd : d.digits < 2 ^ (d.digits.log2 + 1) := Nat.lt_log2_self
  rw [tenTo_of_nonpos (by omega), Nat.mul_one]
  calc 2 * (d.digits * 2 ^ 1074)
      < 2 * (2 ^ (d.digits.log2 + 1) * 2 ^ 1074) :=
        Nat.mul_lt_mul_of_pos_left (Nat.mul_lt_mul_of_pos_right hd (Nat.two_pow_pos _))
          (by decide)
    _ = 2 ^ (d.digits.log2 + 1 + 1074 + 1) :=
        (congrArg (2 * ·) (Nat.pow_add 2 _ 1074).symm).trans Nat.pow_succ'.symm
    _ ≤ 2 ^ (3 * (-d.power).toNat) := Nat.pow_le_pow_right (by decide) (by omega)
    _ ≤ tenTo (-d.power) := two_pow_three_mul_le _

theorem nearestCode_of_isHuge {d : Decimal} (h0 : d.digits ≠ 0) (h : d.isHuge = true) :
    Binary64.nearestCode (d.digits * tenTo d.power) (tenTo (-d.power))
      = Binary64.infinityCode := by
  simp only [isHuge, decide_eq_true_eq] at h
  apply Binary64.nearestCode_of_ge (tenTo_pos _)
  have hone : tenTo (-d.power) = 1 := tenTo_of_nonpos (by omega)
  calc 2 ^ 1100 * tenTo (-d.power) = 2 ^ 1100 := 
        (congrArg (2 ^ 1100 * ·) hone).trans (Nat.mul_one _)
    _ ≤ 2 ^ (3 * d.power.toNat) := Nat.pow_le_pow_right (by decide) (by omega)
    _ ≤ tenTo d.power := two_pow_three_mul_le _
    _ ≤ d.digits * tenTo d.power := Nat.le_mul_of_pos_left _ (by omega)

/-- The bounds that keep extreme powers from being computed do not
change which double is nearest. -/
theorem nearestCode_eq (d : Decimal) :
    d.nearestCode = Binary64.nearestCode (d.digits * tenTo d.power) (tenTo (-d.power)) := by
  rw [nearestCode]
  by_cases h0 : d.digits = 0
  · rw [if_pos (by simp [h0]), h0, Nat.zero_mul, Binary64.nearestCode, if_pos rfl]
  by_cases ht : d.isTiny = true
  · rw [if_pos (by simp [ht]), nearestCode_of_isTiny ht]
  rw [if_neg (by simp [h0, ht])]
  by_cases hh : d.isHuge = true
  · rw [if_pos hh, nearestCode_of_isHuge h0 hh]
  · rw [if_neg hh]

/-- Moving decimal places between the digits and the power of ten keeps
the value, and with it the nearest double. -/
theorem nearestCode_shift (n : Nat) (k : Nat) (p : Int) (hp : 0 ≤ p) :
    nearestCode ⟨n * 10 ^ k, p⟩ = nearestCode ⟨n, p + k⟩ := by
  rw [nearestCode_eq, nearestCode_eq]
  show Binary64.nearestCode (n * 10 ^ k * 10 ^ p.toNat) (tenTo (-p))
    = Binary64.nearestCode (n * 10 ^ (p + k).toNat) (tenTo (-(p + k)))
  rw [tenTo_of_nonpos (by omega), tenTo_of_nonpos (by omega), Nat.mul_assoc, ← Nat.pow_add,
    show k + p.toNat = (p + k).toNat by omega]

/-- The exact expansion of a code reads back. -/
theorem nearestCode_expansion {c : Nat} (h0 : c ≠ 0) (h : c ≤ Binary64.infinityCode) :
    (expansion c).nearestCode = c := by
  rw [nearestCode_eq, expansion]
  generalize he : Binary64.exponent c = e
  have hnum := Binary64.numerator_pos h0
  have hden := Binary64.denominator_pos c
  have h5 : 0 < Nat.pow 5 (-e).toNat := Nat.pow_pos (by decide)
  have hden5 : tenTo (-min e 0) = Binary64.denominator c * Nat.pow 5 (-e).toNat := by
    rw [Binary64.denominator, he, Nat.shiftLeft_eq, Nat.one_mul, tenTo,
      show (-min e 0).toNat = (-e).toNat by omega]
    show (2 * 5) ^ (-e).toNat = _
    rw [Nat.mul_pow]
    rfl
  show Binary64.nearestCode (Binary64.numerator c * Nat.pow 5 (-e).toNat * tenTo (min e 0)) _ = c
  rw [tenTo_of_nonpos (by omega), Nat.mul_one, hden5, Binary64.nearestCode_mul hnum hden h5,
    Binary64.nearestCode_numerator h0 h]

theorem nearestCode_of_neighbour {c : Nat} {p : Int} {d : Decimal}
    (h : neighbour? c p = some d) : d.nearestCode = c := by
  simp only [neighbour?] at h
  split at h
  · rename_i hb ha
    rw [readsAs, beq_iff_eq] at hb ha
    split at h <;> cases h
    · exact hb
    · exact ha
  · rename_i hb _
    cases h
    exact beq_iff_eq.mp hb
  · rename_i _ ha
    cases h
    exact beq_iff_eq.mp ha
  · cases h

theorem nearestCode_search {c : Nat} (h0 : c ≠ 0) (h : c ≤ Binary64.infinityCode) (p : Int)
    (steps : Nat) : (search c p steps).nearestCode = c := by
  induction steps generalizing p with
  | zero => exact nearestCode_expansion h0 h
  | succ steps ih =>
      rw [search]
      cases hn : neighbour? c p with
      | some d => exact nearestCode_of_neighbour hn
      | none => exact ih (p - 1)

/-- The shortest decimal reads back. -/
theorem nearestCode_shortest {c : Nat} (h0 : c ≠ 0) (h : c ≤ Binary64.infinityCode) :
    (shortest c).nearestCode = c := nearestCode_search h0 h _ _

end LinearProgram.Decimal
