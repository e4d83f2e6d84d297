import LinearProgram.Proofs.Binary64.Bits

/-!
# `LinearProgram.Proofs.Binary64.Rounding`: the code nearest to a ratio

`nearestCode` estimates the exponent from binary logarithms and corrects
the estimate by one step. What it rounds to does not depend on the
estimate: a ratio *fits* exactly one exponent (`Fits.unique`), the one
for which it has 53 bits before the point, or the least one, and the
corrected estimate fits (`fits_fittingExponent`). So

* `nearestCode_of_fits`: the code is read off any exponent that fits;
* `nearestCode_mul`: the code depends on the value of the ratio only;
* `nearestCode_numerator`: the magnitude of a code rounds to that code;
* `nearestCode_of_lt`, `nearestCode_of_ge`: where the code is zero or
  infinity for sure.
-/

set_option autoImplicit false

namespace LinearProgram.Binary64

/-! ### The exponent that a ratio fits -/

/-- Numerator of a ratio divided by `2 ^ e`. -/
def scaledNum (num : Nat) (e : Int) : Nat := num <<< (-e).toNat

/-- Denominator of a ratio divided by `2 ^ e`. -/
def scaledDen (den : Nat) (e : Int) : Nat := den <<< e.toNat

/-- The exponent of the mantissa to which a ratio is rounded: divided by
`2 ^ e` the ratio has at most 53 bits before the point, and no fewer
unless the exponent is the least one. -/
structure Fits (num den : Nat) (e : Int) : Prop where
  ge : -1074 ≤ e
  lt : scaledNum num e < 2 ^ 53 * scaledDen den e
  least_or_ge : e = -1074 ∨ 2 ^ 52 * scaledDen den e ≤ scaledNum num e

theorem scaledDen_pos {den : Nat} (h : 0 < den) (e : Int) : 0 < scaledDen den e := by
  rw [scaledDen, Nat.shiftLeft_eq]
  exact Nat.mul_pos h (Nat.two_pow_pos _)

/-- Dividing by a larger power of two, in cross-multiplied form. -/
theorem scaled_cross (num den : Nat) {e e' : Int} (h : e ≤ e') :
    scaledNum num e * scaledDen den e'
      = 2 ^ (e' - e).toNat * (scaledNum num e' * scaledDen den e) := by
  have hexp : (-e).toNat + e'.toNat = (e' - e).toNat + ((-e').toNat + e.toNat) := by omega
  simp only [scaledNum, scaledDen, Nat.shiftLeft_eq]
  calc num * 2 ^ (-e).toNat * (den * 2 ^ e'.toNat)
      = num * den * 2 ^ ((-e).toNat + e'.toNat) := by
        rw [Nat.pow_add, Nat.mul_mul_mul_comm]
    _ = 2 ^ (e' - e).toNat * (num * 2 ^ (-e').toNat * (den * 2 ^ e.toNat)) := by
        rw [hexp, Nat.pow_add, Nat.pow_add, Nat.mul_left_comm, Nat.mul_mul_mul_comm num]

/-- A ratio fits one exponent only. -/
theorem Fits.unique {num den : Nat} {e e' : Int} (hden : 0 < den)
    (h : Fits num den e) (h' : Fits num den e') : e = e' := by
  have key : ∀ {i j : Int}, Fits num den i → Fits num den j → ¬ i < j := by
    intro i j hi hj hlt
    have hge : 2 ^ 52 * scaledDen den j ≤ scaledNum num j := by
      rcases hj.least_or_ge with hj' | hj'
      · have := hi.ge
        omega
      · exact hj'
    have hcross := scaled_cross num den (Int.le_of_lt hlt)
    have hpow : 2 ≤ 2 ^ (j - i).toNat := by
      have : 2 ^ 1 ≤ 2 ^ (j - i).toNat := Nat.pow_le_pow_right (by omega) (by omega)
      omega
    have hup : scaledNum num i * scaledDen den j
        < 2 ^ 53 * scaledDen den i * scaledDen den j :=
      Nat.mul_lt_mul_of_pos_right hi.lt (scaledDen_pos hden j)
    have hlow : 2 * (2 ^ 52 * scaledDen den j * scaledDen den i)
        ≤ 2 ^ (j - i).toNat * (scaledNum num j * scaledDen den i) :=
      Nat.mul_le_mul hpow (Nat.mul_le_mul_right _ hge)
    rw [← hcross] at hlow
    have hcomm : 2 ^ 53 * scaledDen den i * scaledDen den j
        = 2 * (2 ^ 52 * scaledDen den j * scaledDen den i) := by
      rw [Nat.mul_assoc, Nat.mul_assoc, Nat.mul_comm (scaledDen den j)]
      omega
    omega
  have h1 := key h h'
  have h2 := key h' h
  omega

/-- The lower of the two exponents that rounding decides between. -/
def lowExponent (num den : Nat) : Int := max (-1074) ((num.log2 : Int) - den.log2 - 53)

/-- The exponent to which a ratio is rounded. -/
def fittingExponent (num den : Nat) : Int :=
  if 2 * leastNormal ≤ scaledNum num (lowExponent num den) / scaledDen den (lowExponent num den)
  then lowExponent num den + 1 else lowExponent num den

theorem scaledNum_lt (num : Nat) {den : Nat} (hden : 0 < den) :
    scaledNum num (lowExponent num den) < 2 ^ 54 * scaledDen den (lowExponent num den) := by
  have hlow : (num.log2 : Int) - den.log2 - 53 ≤ lowExponent num den := Int.le_max_right _ _
  generalize lowExponent num den = e at *
  have h1 : num < 2 ^ (num.log2 + 1) := Nat.lt_log2_self
  have h2 : 2 ^ den.log2 ≤ den := Nat.log2_self_le (by omega)
  rw [scaledNum, scaledDen, Nat.shiftLeft_eq, Nat.shiftLeft_eq]
  calc num * 2 ^ (-e).toNat
      < 2 ^ (num.log2 + 1) * 2 ^ (-e).toNat :=
        Nat.mul_lt_mul_of_pos_right h1 (Nat.two_pow_pos _)
    _ ≤ 2 ^ 54 * (2 ^ den.log2 * 2 ^ e.toNat) := by
        rw [← Nat.pow_add, ← Nat.pow_add, ← Nat.pow_add]
        exact Nat.pow_le_pow_right (by omega) (by omega)
    _ ≤ 2 ^ 54 * (den * 2 ^ e.toNat) := Nat.mul_le_mul_left _ (Nat.mul_le_mul_right _ h2)

theorem le_scaledNum {num den : Nat} (hnum : 0 < num) (h : lowExponent num den ≠ -1074) :
    2 ^ 52 * scaledDen den (lowExponent num den) ≤ scaledNum num (lowExponent num den) := by
  have hlow : lowExponent num den = (num.log2 : Int) - den.log2 - 53 := by
    rw [lowExponent] at h ⊢
    omega
  generalize lowExponent num den = e at *
  have h1 : 2 ^ num.log2 ≤ num := Nat.log2_self_le (by omega)
  have h2 : den < 2 ^ (den.log2 + 1) := Nat.lt_log2_self
  rw [scaledNum, scaledDen, Nat.shiftLeft_eq, Nat.shiftLeft_eq]
  calc 2 ^ 52 * (den * 2 ^ e.toNat)
      ≤ 2 ^ 52 * (2 ^ (den.log2 + 1) * 2 ^ e.toNat) :=
        Nat.mul_le_mul_left _ (Nat.mul_le_mul_right _ (Nat.le_of_lt h2))
    _ ≤ 2 ^ num.log2 * 2 ^ (-e).toNat := by
        rw [← Nat.pow_add, ← Nat.pow_add, ← Nat.pow_add]
        exact Nat.pow_le_pow_right (by omega) (by omega)
    _ ≤ num * 2 ^ (-e).toNat := Nat.mul_le_mul_right _ h1

/-- The exponent that rounding chooses fits. -/
theorem fits_fittingExponent {num den : Nat} (hnum : 0 < num) (hden : 0 < den) :
    Fits num den (fittingExponent num den) := by
  have hl : 2 * leastNormal = 2 ^ 53 := rfl
  have hge : -1074 ≤ lowExponent num den := Int.le_max_left _ _
  have hlt := scaledNum_lt num hden
  have hD := scaledDen_pos hden (lowExponent num den)
  rw [fittingExponent, hl]
  split
  · rename_i hlong
    rw [Nat.le_div_iff_mul_le hD] at hlong
    have hcross := scaled_cross num den (show lowExponent num den ≤ lowExponent num den + 1 by omega)
    rw [show (lowExponent num den + 1 - lowExponent num den).toNat = 1 by omega, Nat.pow_one] at hcross
    have hD' := scaledDen_pos hden (lowExponent num den + 1)
    generalize lowExponent num den = e at *
    refine ⟨by omega, ?_, .inr ?_⟩
    · have h1 := Nat.mul_lt_mul_of_pos_right hlt hD'
      rw [hcross] at h1
      refine Nat.lt_of_mul_lt_mul_right (a := scaledDen den e) ?_
      have h2 : 2 ^ 54 * scaledDen den e * scaledDen den (e + 1)
          = 2 * (2 ^ 53 * scaledDen den (e + 1) * scaledDen den e) := by
        rw [Nat.mul_assoc, Nat.mul_assoc, Nat.mul_comm (scaledDen den e)]
        omega
      omega
    · have h1 := Nat.mul_le_mul_right (scaledDen den (e + 1)) hlong
      rw [hcross] at h1
      refine Nat.le_of_mul_le_mul_right ?_ hD
      have h2 : 2 ^ 53 * scaledDen den e * scaledDen den (e + 1)
          = 2 * (2 ^ 52 * scaledDen den (e + 1) * scaledDen den e) := by
        rw [Nat.mul_assoc, Nat.mul_assoc, Nat.mul_comm (scaledDen den e)]
        omega
      omega
  · rename_i hshort
    rw [Nat.le_div_iff_mul_le hD] at hshort
    refine ⟨hge, by omega, ?_⟩
    by_cases h : lowExponent num den = -1074
    · exact .inl h
    · exact .inr (le_scaledNum hnum h)

/-- Rounding a ratio with the exponent that it fits. -/
theorem nearestCode_of_fits {num den : Nat} {e : Int} (hnum : 0 < num) (hden : 0 < den)
    (h : Fits num den e) :
    nearestCode num den = min infinityCode
      ((e + 1074).toNat * leastNormal + roundHalfEven (scaledNum num e) (scaledDen den e)) := by
  rw [h.unique hden (fits_fittingExponent hnum hden), nearestCode, if_neg (by omega)]
  rfl

/-! ### What rounding does to equal ratios and to doubles -/

theorem scaledNum_mul (num k : Nat) (e : Int) :
    scaledNum (num * k) e = scaledNum num e * k := by
  rw [scaledNum, scaledNum, Nat.shiftLeft_eq, Nat.shiftLeft_eq, Nat.mul_right_comm]

theorem scaledDen_mul (den k : Nat) (e : Int) :
    scaledDen (den * k) e = scaledDen den e * k := by
  rw [scaledDen, scaledDen, Nat.shiftLeft_eq, Nat.shiftLeft_eq, Nat.mul_right_comm]

theorem Fits.mul {num den k : Nat} {e : Int} (hk : 0 < k) (h : Fits num den e) :
    Fits (num * k) (den * k) e := by
  refine ⟨h.ge, ?_, ?_⟩
  · rw [scaledNum_mul, scaledDen_mul, ← Nat.mul_assoc]
    exact Nat.mul_lt_mul_of_pos_right h.lt hk
  · rcases h.least_or_ge with h | h
    · exact .inl h
    · rw [scaledNum_mul, scaledDen_mul, ← Nat.mul_assoc]
      exact .inr (Nat.mul_le_mul_right _ h)

theorem roundHalfEven_mul (num den : Nat) {k : Nat} (hk : 0 < k) :
    roundHalfEven (num * k) (den * k) = roundHalfEven num den := by
  have hdiv : num * k / (den * k) = num / den := Nat.mul_div_mul_right _ _ hk
  have hlt : ∀ a b : Nat, a * k < b * k ↔ a < b := fun a b => Nat.mul_lt_mul_right hk
  simp only [roundHalfEven, hdiv, Nat.mul_mod_mul_right, ← Nat.mul_assoc, hlt]

/-- The code nearest to a ratio depends on its value only. -/
theorem nearestCode_mul {num den k : Nat} (hnum : 0 < num) (hden : 0 < den) (hk : 0 < k) :
    nearestCode (num * k) (den * k) = nearestCode num den := by
  have h := fits_fittingExponent hnum hden
  rw [nearestCode_of_fits hnum hden h,
    nearestCode_of_fits (Nat.mul_pos hnum hk) (Nat.mul_pos hden hk) (h.mul hk),
    scaledNum_mul, scaledDen_mul, roundHalfEven_mul _ _ hk]

theorem roundHalfEven_self_mul (m : Nat) {k : Nat} (hk : 0 < k) :
    roundHalfEven (m * k) k = m := by
  rw [roundHalfEven, Nat.mul_mod_left, Nat.mul_div_cancel m hk, if_pos (by omega)]

theorem denominator_pos (c : Nat) : 0 < denominator c := by
  rw [denominator, Nat.shiftLeft_eq]
  exact Nat.mul_pos Nat.one_pos (Nat.two_pow_pos _)

theorem numerator_pos {c : Nat} (h : c ≠ 0) : 0 < numerator c := by
  rw [numerator, Nat.shiftLeft_eq]
  exact Nat.mul_pos (mantissa_pos h) (Nat.two_pow_pos _)

/-- The ratio of a code, scaled by the exponent of the code, is its
mantissa. -/
theorem scaledNum_numerator (c : Nat) :
    scaledNum (numerator c) (exponent c)
      = mantissa c * scaledDen (denominator c) (exponent c) := by
  rw [scaledNum, scaledDen, numerator, denominator]
  simp only [Nat.shiftLeft_eq]
  rw [Nat.one_mul, Nat.mul_comm (2 ^ (-exponent c).toNat), Nat.mul_assoc]

theorem fits_exponent (c : Nat) : Fits (numerator c) (denominator c) (exponent c) := by
  have hD := scaledDen_pos (denominator_pos c) (exponent c)
  refine ⟨exponent_ge c, ?_, ?_⟩
  · rw [scaledNum_numerator]
    exact Nat.mul_lt_mul_of_pos_right (mantissa_lt c) hD
  · rcases mantissa_ge_or c with h | h
    · rw [scaledNum_numerator]
      exact .inr (Nat.mul_le_mul_right _ h)
    · exact .inl h

/-- The code nearest to the magnitude of a code is that code. -/
theorem nearestCode_numerator {c : Nat} (h0 : c ≠ 0) (h : c ≤ infinityCode) :
    nearestCode (numerator c) (denominator c) = c := by
  have hD := scaledDen_pos (denominator_pos c) (exponent c)
  have hl : leastNormal = 2 ^ 52 := rfl
  rw [nearestCode_of_fits (numerator_pos h0) (denominator_pos c) (fits_exponent c),
    scaledNum_numerator, roundHalfEven_self_mul _ hD, hl, code_eq_of_parts]
  exact Nat.min_eq_right h

/-- A ratio below half the least double rounds to zero. -/
theorem nearestCode_of_lt {num den : Nat} (hden : 0 < den) (h : 2 * (num * 2 ^ 1074) < den) :
    nearestCode num den = 0 := by
  rcases Nat.eq_zero_or_pos num with h0 | hnum
  · rw [nearestCode, if_pos h0]
  have hN : scaledNum num (-1074) = num * 2 ^ 1074 := by
    rw [scaledNum, Nat.shiftLeft_eq, show (- -1074 : Int).toNat = 1074 from rfl]
  have hD : scaledDen den (-1074) = den := by
    rw [scaledDen, Nat.shiftLeft_eq, show (-1074 : Int).toNat = 0 from rfl, Nat.pow_zero,
      Nat.mul_one]
  generalize num * 2 ^ 1074 = n at hN h
  have hfits : Fits num den (-1074) := by
    refine ⟨Int.le_refl _, ?_, .inl rfl⟩
    rw [hN, hD]
    omega
  rw [nearestCode_of_fits hnum hden hfits, hN, hD, roundHalfEven, Nat.mod_eq_of_lt (by omega),
    Nat.div_eq_of_lt (by omega), if_pos h]
  decide

/-- A ratio of at least `2 ^ 1100` rounds to infinity. -/
theorem nearestCode_of_ge {num den : Nat} (hden : 0 < den) (h : 2 ^ 1100 * den ≤ num) :
    nearestCode num den = infinityCode := by
  have hnum : 0 < num := Nat.lt_of_lt_of_le (Nat.mul_pos (Nat.two_pow_pos _) hden) h
  have hfits := fits_fittingExponent hnum hden
  rw [nearestCode_of_fits hnum hden hfits]
  generalize fittingExponent num den = e at *
  have he : 1047 ≤ e := by
    refine Int.not_lt.mp fun hlt => ?_
    have hN := hfits.lt
    rw [scaledNum, scaledDen, Nat.shiftLeft_eq, Nat.shiftLeft_eq] at hN
    refine absurd hN (Nat.not_lt.mpr ?_)
    calc 2 ^ 53 * (den * 2 ^ e.toNat)
        = 2 ^ (53 + e.toNat) * den := by
          rw [Nat.pow_add, Nat.mul_comm den, ← Nat.mul_assoc]
      _ ≤ 2 ^ 1100 * den := Nat.mul_le_mul_right _ (Nat.pow_le_pow_right (by omega) (by omega))
      _ ≤ num := h
      _ ≤ num * 2 ^ (-e).toNat := Nat.le_mul_of_pos_right _ (Nat.two_pow_pos _)
  refine Nat.min_eq_left ?_
  have hbig : 2047 * leastNormal ≤ (e + 1074).toNat * leastNormal :=
    Nat.mul_le_mul_right _ (by omega)
  exact Nat.le_add_right_of_le hbig

end LinearProgram.Binary64
