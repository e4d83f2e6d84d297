import LinearProgram.Proofs.Binary64.Comparison

/-!
# `LinearProgram.Proofs.Binary64.Order`: the order of numbers

Two doubles are compared by exponent and mantissa, and by their signs.
For numbers this is the order of integers: the code says how far a
number is from zero, and the sign says on which side. Both zeros have
the same place, and infinity comes last.

* `lt_iff_parts`: codes are ordered as exponents and mantissas are.
* `lt_iff_rank`, `le_iff_rank`: what is not a number aside, one double is
  below another exactly if its rank is.
-/

set_option autoImplicit false

namespace LinearProgram.Binary64

open Float.Model

/-- The place of a number: its code, counted downwards below zero. -/
def rank (x : Float) : Int := if isNegative x then -(code x : Int) else code x

/-- A larger exponent counts more than any mantissa. -/
theorem lt_iff_parts (c d : Nat) :
    c < d ↔ exponent c < exponent d ∨ exponent c = exponent d ∧ mantissa c < mantissa d := by
  have hc := code_eq_of_parts c
  have hd := code_eq_of_parts d
  have hmc := mantissa_lt c
  have hmd := mantissa_lt d
  have hec := exponent_ge c
  have hed := exponent_ge d
  have hnc := mantissa_ge_or c
  have hnd := mantissa_ge_or d
  omega

theorem compare_parts_eq_lt_iff {c d : Nat} :
    ((compare (exponent c) (exponent d)).then (compare (mantissa c) (mantissa d))) = .lt
      ↔ c < d := by
  rw [Ordering.then_eq_lt, Int.compare_eq_lt, Int.compare_eq_eq, Nat.compare_eq_lt,
    lt_iff_parts c d]

theorem compare_parts_eq_gt_iff {c d : Nat} :
    ((compare (exponent c) (exponent d)).then (compare (mantissa c) (mantissa d))) = .gt
      ↔ d < c := by
  rw [Ordering.then_eq_gt, Int.compare_eq_gt, Int.compare_eq_eq, Nat.compare_eq_gt,
    lt_iff_parts d c, @eq_comm _ (exponent c)]

/-- Numbers are ordered by sign and code. -/
theorem compare_unpacked_eq_lt_iff (n m : Bool) {c d : Nat} (hc : c ≤ infinityCode)
    (hd : d ≤ infinityCode) :
    (unpacked n c).compare (unpacked m d) = some .lt
      ↔ (if n then -(c : Int) else c) < if m then -(d : Int) else d := by
  have hi : 0 < infinityCode := by decide
  rcases code_cases c with hlt | hc | hc | ⟨hc0, hc⟩
  · omega
  · rcases code_cases d with hlt | hd | hd | ⟨hd0, hd⟩
    · omega
    · rw [hc, hd, unpacked_infinity, unpacked_infinity, compare_infinity_infinity]
      cases n <;> cases m <;> simp <;> omega
    · rw [hc, hd, unpacked_infinity, unpacked_zero, compare_infinity_zero]
      cases n <;> cases m <;> simp <;> omega
    · rw [hc, unpacked_infinity, unpacked_finite m hd0 hd, compare_infinity_finite]
      cases n <;> cases m <;> simp <;> omega
  · rcases code_cases d with hlt | hd | hd | ⟨hd0, hd⟩
    · omega
    · rw [hc, hd, unpacked_zero, unpacked_infinity, compare_zero_infinity]
      cases n <;> cases m <;> simp <;> omega
    · rw [hc, hd, unpacked_zero, unpacked_zero, compare_zero_zero]
      cases n <;> cases m <;> simp
    · rw [hc, unpacked_zero, unpacked_finite m hd0 hd, compare_zero_finite]
      cases n <;> cases m <;> simp <;> omega
  · rcases code_cases d with hlt | hd | hd | ⟨hd0, hd⟩
    · omega
    · rw [hd, unpacked_finite n hc0 hc, unpacked_infinity, compare_finite_infinity]
      cases n <;> cases m <;> simp <;> omega
    · rw [hd, unpacked_finite n hc0 hc, unpacked_zero, compare_finite_zero]
      cases n <;> cases m <;> simp <;> omega
    · rw [unpacked_finite n hc0 hc, unpacked_finite m hd0 hd, compare_finite_finite]
      cases n <;> cases m <;> simp [Ordering.swap_eq_lt, compare_parts_eq_lt_iff,
        compare_parts_eq_gt_iff] <;> omega

/-- Numbers are ordered by their ranks. -/
theorem lt_iff_rank {x y : Float} (hx : x.isNaN = false) (hy : y.isNaN = false) :
    x < y ↔ rank x < rank y := by
  rw [lt_iff, unpack_toModel, unpack_toModel,
    compare_unpacked_eq_lt_iff _ _ (code_le_of_isNaN hx) (code_le_of_isNaN hy)]
  rfl

theorem le_iff (x y : Float) :
    x ≤ y ↔ x.toModel.unpack.compare y.toModel.unpack = some .lt
      ∨ x.toModel.unpack.compare y.toModel.unpack = some .eq := by
  show Float.le x y = true ↔ _
  rw [Float.le, decide_eq_true_iff]
  show UnpackedFloat.le x.toModel.unpack y.toModel.unpack = true ↔ _
  rw [UnpackedFloat.le]
  rcases x.toModel.unpack.compare y.toModel.unpack with _ | _ | _ | _ <;> decide

/-- Two numbers of one rank are equal, as the zeros are. -/
theorem le_iff_rank {x y : Float} (hx : x.isNaN = false) (hy : y.isNaN = false) :
    x ≤ y ↔ rank x ≤ rank y := by
  have hcx := code_le_of_isNaN hx
  have hcy := code_le_of_isNaN hy
  rw [le_iff, ← lt_iff, lt_iff_rank hx hy, Int.le_iff_lt_or_eq, unpack_toModel, unpack_toModel,
    compare_unpacked_eq_iff]
  refine or_congr_right ?_
  rw [rank, rank]
  cases isNegative x <;> cases isNegative y <;> simp [hcx, hcy] <;> omega

end LinearProgram.Binary64
