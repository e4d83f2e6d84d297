import LinearProgram.Proofs.Binary64.Comparison
import LinearProgram.Proofs.Binary64.Rounding

/-!
# `LinearProgram.Proofs.Binary64.Whole`: rounding to whole numbers

Rounding a finite double to a whole number gives a whole number. Beyond
`2 ^ 52` all doubles are whole, so what has to be rounded is smaller, and
whole numbers of that size are doubles.

* `parts_of_code`: mantissa and exponent are read off the code that they
  make up.
* `isWhole_nearestCode`: a whole number of 53 bits stays itself.
* `isWhole_roundHalfAway` and `isNaN_roundHalfAway` are what is used.
* `code_eq_zero_of_isWhole`: below one there is no whole number but zero.
-/

set_option autoImplicit false

namespace LinearProgram.Binary64

theorem parts_of_code {m : Nat} {e : Int} (hlt : m < 2 ^ 53) (he : -1074 ≤ e)
    (hge : 2 ^ 52 ≤ m ∨ e = -1074) :
    mantissa ((e + 1074).toNat * 2 ^ 52 + m) = m
      ∧ exponent ((e + 1074).toNat * 2 ^ 52 + m) = e := by
  have hl : leastNormal = 2 ^ 52 := rfl
  have hdiv : ((e + 1074).toNat * 2 ^ 52 + m) / 2 ^ 52 = (e + 1074).toNat + m / 2 ^ 52 := by
    omega
  have hmod : ((e + 1074).toNat * 2 ^ 52 + m) % 2 ^ 52 = m % 2 ^ 52 := by omega
  constructor
  · rw [mantissa, hl, hdiv, hmod]
    split <;> omega
  · rw [exponent, hl, hdiv]
    omega

theorem nearestCode_le (num den : Nat) : nearestCode num den ≤ infinityCode := by
  rw [nearestCode]
  split
  · exact Nat.zero_le _
  · exact Nat.min_le_left _ _

/-- A whole number of 53 bits is the double nearest to it. -/
theorem isWhole_nearestCode {k : Nat} (hk : k < 2 ^ 53) :
    numerator (nearestCode k 1) % denominator (nearestCode k 1) = 0 := by
  rcases Nat.eq_zero_or_pos k with rfl | hpos
  · rfl
  have hfits := fits_fittingExponent hpos Nat.one_pos
  rw [nearestCode_of_fits hpos Nat.one_pos hfits]
  generalize fittingExponent k 1 = e at hfits
  obtain ⟨hmin, hlt, hge⟩ := hfits
  -- A positive exponent would take more than 53 bits.
  have hneg : e ≤ 0 := by
    refine Decidable.byContradiction fun hpositive => ?_
    have hnum : scaledNum k e = k := by
      rw [scaledNum, Int.toNat_of_nonpos (by omega), Nat.shiftLeft_zero]
    have hden : 2 ≤ scaledDen 1 e := by
      rw [scaledDen, Nat.shiftLeft_eq, Nat.one_mul]
      exact Nat.pow_le_pow_right (by decide : 1 ≤ 2) (show 1 ≤ e.toNat by omega)
    rcases hge with hleast | hge
    · omega
    · rw [hnum] at hge
      omega
  have hden : scaledDen 1 e = 1 := by
    rw [scaledDen, Int.toNat_of_nonpos hneg, Nat.shiftLeft_zero]
  have hnum : scaledNum k e = k * 2 ^ (-e).toNat := by rw [scaledNum, Nat.shiftLeft_eq]
  have hround : roundHalfEven (scaledNum k e) 1 = scaledNum k e := by
    have := roundHalfEven_self_mul (scaledNum k e) Nat.one_pos
    rwa [Nat.mul_one] at this
  rw [hden, Nat.mul_one] at hlt
  rw [hden, Nat.mul_one] at hge
  obtain ⟨hmantissa, hexponent⟩ := parts_of_code hlt hmin hge.symm
  have hl : leastNormal = 2 ^ 52 := rfl
  have hi : infinityCode = 2047 * 2 ^ 52 := rfl
  rw [hden, hround, hl, Nat.min_eq_right (by omega), numerator, denominator, hmantissa, hexponent,
    Int.toNat_of_nonpos hneg, Nat.shiftLeft_zero, Nat.shiftLeft_eq, Nat.one_mul, hnum]
  exact Nat.mul_mod_left ..

/-- What is not whole is too small to need more than 53 bits once it has
been rounded. -/
theorem rounded_lt {c : Nat} (h : numerator c % denominator c ≠ 0) :
    (2 * numerator c + denominator c) / (2 * denominator c) < 2 ^ 53 := by
  have hneg : exponent c < 0 := by
    refine Decidable.byContradiction fun hnonneg => ?_
    refine h ?_
    rw [denominator, Int.toNat_of_nonpos (by omega), Nat.shiftLeft_zero, Nat.mod_one]
  -- With a negative exponent the numerator is the mantissa itself.
  have hnum : numerator c < 2 ^ 53 := by
    rw [numerator, Int.toNat_of_nonpos (by omega), Nat.shiftLeft_zero]
    exact mantissa_lt c
  have hden : 2 ≤ denominator c := by
    rw [denominator, Nat.shiftLeft_eq, Nat.one_mul]
    exact Nat.pow_le_pow_right (by decide : 1 ≤ 2) (show 1 ≤ (-exponent c).toNat by omega)
  rw [Nat.div_lt_iff_lt_mul (by omega)]
  omega

/-- Rounding gives a whole number, unless there is none. -/
theorem isWhole_roundHalfAway {x : Float} (h : x.isFinite = true) :
    isWhole (roundHalfAway x) = true := by
  rw [isFinite_iff] at h
  rw [roundHalfAway]
  split
  · rename_i hcase
    rcases Bool.or_eq_true_iff.mp hcase with hinf | hwhole
    · exact absurd (of_decide_eq_true hinf) (by omega)
    · exact hwhole
  · rename_i hcase
    have hfraction : numerator (code x) % denominator (code x) ≠ 0 := by
      intro hzero
      refine hcase (Bool.or_eq_true_iff.mpr (.inr ?_))
      rw [isWhole, hzero]
      rfl
    rw [isWhole, code_ofCode _ (nearestCode_le _ _), isWhole_nearestCode (rounded_lt hfraction)]
    rfl

/-- Rounding gives no number only for what is none. -/
theorem isNaN_roundHalfAway {x : Float} (h : x.isNaN = false) :
    (roundHalfAway x).isNaN = false := by
  rw [roundHalfAway]
  split
  · exact h
  · rw [← Bool.not_eq_true, isNaN_iff, code_ofCode _ (nearestCode_le _ _)]
    exact Nat.not_lt.mpr (nearestCode_le _ _)

/-- What is not finite is not rounded. -/
theorem isFinite_of_roundHalfAway {x : Float} (h : (roundHalfAway x).isFinite = true) :
    x.isFinite = true := by
  rw [isFinite_iff] at h ⊢
  refine Decidable.byContradiction fun hnot => ?_
  rw [roundHalfAway, if_pos (Bool.or_eq_true_iff.mpr (.inl (decide_eq_true (by omega))))] at h
  exact hnot h

/-- A whole number below one is zero: a mantissa that is not has fewer bits
than the denominator. -/
theorem code_eq_zero_of_isWhole {x : Float} (h : isWhole x = true) (hlt : code x < code 1) :
    code x = 0 := by
  refine Decidable.byContradiction fun h0 => ?_
  have hone : code 1 = 1023 * 2 ^ 52 := by decide
  have hl : leastNormal = 2 ^ 52 := rfl
  have hexponent : exponent (code x) ≤ -53 := by
    rw [exponent, hl]
    omega
  have hnum : numerator (code x) = mantissa (code x) := by
    rw [numerator, Int.toNat_of_nonpos (by omega), Nat.shiftLeft_zero]
  have hden : 2 ^ 53 ≤ denominator (code x) := by
    rw [denominator, Nat.shiftLeft_eq, Nat.one_mul]
    exact Nat.pow_le_pow_right (by decide) (by omega)
  have hmod := beq_iff_eq.mp h
  rw [hnum, Nat.mod_eq_of_lt (Nat.lt_of_lt_of_le (mantissa_lt _) hden)] at hmod
  exact absurd hmod (Nat.ne_of_gt (mantissa_pos h0))

end LinearProgram.Binary64
