import LinearProgram.Proofs.Binary64.Whole
import Mathlib.Algebra.Order.Field.Power
import Mathlib.Algebra.Order.Ring.Rat
import Mathlib.Tactic.Linarith
import Mathlib.Tactic.NormNum
import Mathlib.Tactic.Positivity
import Mathlib.Tactic.Ring

/-!
# `LinearProgram.Proofs.Binary64.Exact`: sums and products that are doubles

A finite double stands for a rational number, its `value`, and is
`IsExactly` that number. The sum of two doubles is rounded, but where the
sum of their values is itself the value of a double, nothing is lost by
that, and likewise for products.

* `IsCanonical` is what the mantissa and the exponent of a double have. A
  number is `mantissa * 2 ^ exponent` for one such pair at most
  (`IsCanonical.unique`), so rounding finds it (`round_exact`).
* `IsExactly.add`, `IsExactly.mul`: sums and products that are
  representable are exact. `IsExactly.neg`: opposites always are.
* `IsExactly.beq`: doubles that are exactly the same number are equal.
* `isRepresentable_intCast`: the integers below `2 ^ 53` are representable.
  `IsIntegerUpTo` bounds the integers that come of sums and products.
-/

set_option autoImplicit false

namespace LinearProgram.Binary64

open Float.Model Float.Model.UnpackedFloat

/-- The number that an unpacked double stands for. What is not a finite
number counts as zero. -/
def exactValue : UnpackedFloat → ℚ
  | .finite s m e _ => s.apply m * 2 ^ e
  | _ => 0

/-- The number that a finite double stands for. -/
def value (x : Float) : ℚ := exactValue x.toModel.unpack

/-- Whether a double is finite and stands for a number. -/
structure IsExactly (x : Float) (q : ℚ) : Prop where
  finite : x.isFinite = true
  value_eq : value x = q

/-- Whether a number is the value of a finite double. -/
def IsRepresentable (q : ℚ) : Prop := ∃ x, IsExactly x q

/-! ### Mantissas and exponents -/

/-- What the mantissa and the exponent of a double have: the mantissa has
53 bits, or fewer with the least exponent. -/
structure IsCanonical (m : Nat) (e : Int) : Prop where
  lt : m < 2 ^ 53
  ge : -1074 ≤ e
  normal_or_least : 2 ^ 52 ≤ m ∨ e = -1074

/-- A finite double is a zero, or it has a canonical mantissa. -/
theorem unpack_cases {x : Float} (h : x.isFinite = true) :
    (∃ s, x.toModel.unpack = .zero s)
      ∨ ∃ s m e hm, x.toModel.unpack = .finite s m e hm ∧ IsCanonical m e := by
  rw [unpack_toModel]
  by_cases h0 : code x = 0
  · rw [h0, unpacked_zero]
    exact .inl ⟨_, rfl⟩
  · rw [unpacked_finite _ h0 (isFinite_iff.mp h)]
    exact .inr ⟨_, _, _, _, rfl, mantissa_lt _, exponent_ge _, mantissa_ge_or _⟩

theorem zpow_eq_mul {e f : Int} (h : e ≤ f) : (2 : ℚ) ^ f = 2 ^ (f - e).toNat * 2 ^ e := by
  rw [← zpow_natCast, Int.toNat_of_nonneg (by omega), ← zpow_add₀ two_ne_zero,
    Int.sub_add_cancel]

/-- Of two ways to write a number the one with the smaller exponent has
the longer mantissa. -/
theorem eq_scaled {m n : Nat} {e f : Int} (h : (m : ℚ) * 2 ^ e = n * 2 ^ f) (hle : e ≤ f) :
    m = n * 2 ^ (f - e).toNat := by
  rw [zpow_eq_mul hle, ← mul_assoc] at h
  have hcast := mul_right_cancel₀ (zpow_ne_zero e two_ne_zero) h
  exact_mod_cast hcast

/-- A canonical mantissa is not too long. -/
theorem IsCanonical.exponent_le {m n : Nat} {e f : Int} (hn : IsCanonical n f)
    (h : (m : ℚ) * 2 ^ e = n * 2 ^ f) (hm : 2 ^ 52 ≤ m ∨ e ≤ -1074) : e ≤ f := by
  by_contra hlt
  have hscaled := eq_scaled h.symm (by omega)
  have hge := hn.ge
  have hpow : 2 ≤ 2 ^ (e - f).toNat := Nat.le_self_pow (by omega) 2
  have hlong : m * 2 ≤ n := by
    rw [hscaled]
    exact Nat.mul_le_mul_left m hpow
  have hn := hn.lt
  omega

/-- A number is written in one canonical way only. -/
theorem IsCanonical.unique {m n : Nat} {e f : Int} (hm : IsCanonical m e) (hn : IsCanonical n f)
    (h : (m : ℚ) * 2 ^ e = n * 2 ^ f) : m = n ∧ e = f := by
  have hle := hn.exponent_le h (hm.normal_or_least.imp id (·.le))
  have hge := hm.exponent_le h.symm (hn.normal_or_least.imp id (·.le))
  have heq : e = f := by omega
  have hscaled := eq_scaled h hle
  rw [heq, Int.sub_self, Int.toNat_zero, Nat.pow_zero, Nat.mul_one] at hscaled
  exact ⟨hscaled, heq⟩

/-! ### Rounding -/

section

variable {m n : Nat} {e f : Int} (hpos : 0 < n) (hcanonical : IsCanonical n f)
  (h : (m : ℚ) * 2 ^ e = n * 2 ^ f)

include hcanonical h

theorem roundWithAccuracy_exact (s : Sign) (hle : e ≤ f) :
    roundWithAccuracy Format.binary64 s m e .exact = .finite s n f hpos := by
  have hround := roundWithAccuracy_scaled (k := (f - e).toNat) s hpos hcanonical.lt hcanonical.ge
    hcanonical.normal_or_least
  rw [Int.toNat_of_nonneg (by omega), ← eq_scaled h hle] at hround
  rwa [show f - (f - e) = e by omega] at hround

include hpos in
/-- The exponent that rounding aims at is the canonical one. -/
theorem targetExponent_exact : Format.binary64.targetExponent (totalExponent m e) = f := by
  have htarget : ∀ k : Nat,
      Format.binary64.targetExponent (totalExponent (n * 2 ^ k) (f - k)) = f :=
    fun k => targetExponent_scaled hpos hcanonical.lt hcanonical.ge hcanonical.normal_or_least
  rcases Int.le_total e f with hle | hle
  · have hk := htarget (f - e).toNat
    rw [← eq_scaled h hle, Int.toNat_of_nonneg (by omega)] at hk
    rwa [show f - (f - e) = e by omega] at hk
  · -- A shorter mantissa has the same logarithm, less what its exponent has more.
    have hscaled := eq_scaled h.symm hle
    have hm : 0 < m := by
      rw [hscaled] at hpos
      exact Nat.pos_of_mul_pos_right hpos
    have h0 := htarget 0
    rw [Nat.pow_zero, Nat.mul_one, Int.natCast_zero, Int.sub_zero] at h0
    rw [← h0, totalExponent, totalExponent, hscaled, log2_scaled hm]
    congr 1
    omega

/-- Rounding finds the canonical mantissa, if there is one. -/
theorem round_exact (s : Sign) :
    UnpackedFloat.round Format.binary64 s m e = .finite s n f hpos := by
  have hround : UnpackedFloat.round Format.binary64 s m e
      = roundWithAccuracy Format.binary64 s
          (m <<< (e - Format.binary64.targetExponent (totalExponent m e)).toNat)
          (e - (e - Format.binary64.targetExponent (totalExponent m e)).toNat) .exact := rfl
  rw [hround, targetExponent_exact hpos hcanonical h]
  rcases Int.le_total e f with hle | hle
  · rw [Int.toNat_of_nonpos (by omega), Nat.shiftLeft_zero, Int.natCast_zero, Int.sub_zero]
    exact roundWithAccuracy_exact hpos hcanonical h s hle
  · rw [Nat.shiftLeft_eq, ← eq_scaled h.symm hle, Int.toNat_of_nonneg (by omega),
      show e - (e - f) = f by omega]
    exact roundWithAccuracy_exact hpos hcanonical rfl s (Int.le_refl f)

end

/-! ### Values -/

theorem value_of_unpack {x : Float} {u : UnpackedFloat} (h : x.toModel.unpack = u) :
    value x = exactValue u := congrArg exactValue h

theorem exactValue_finite (s : Sign) {m : Nat} {e : Int} (hm : 0 < m) :
    exactValue (.finite s m e hm) = s.apply m * 2 ^ e := rfl

theorem value_zero : value 0 = 0 := rfl

theorem isExactly_value {x : Float} (h : x.isFinite = true) : IsExactly x (value x) := ⟨h, rfl⟩

theorem isExactly_zero : IsExactly 0 0 := ⟨by decide, value_zero⟩

theorem isExactly_one : IsExactly 1 1 := ⟨by decide, by decide +kernel⟩

theorem isRepresentable_zero : IsRepresentable 0 := ⟨0, isExactly_zero⟩

/-- A mantissa is not zero, nor is what it stands for. -/
theorem exactValue_finite_pos {m : Nat} {e : Int} (hm : 0 < m) : (0 : ℚ) < m * 2 ^ e :=
  mul_pos (Nat.cast_pos.mpr hm) (zpow_pos two_pos e)

theorem exactValue_finite_ne_zero (s : Sign) {m : Nat} {e : Int} (hm : 0 < m) :
    exactValue (.finite s m e hm) ≠ 0 := by
  have hpos := @exactValue_finite_pos m e hm
  cases s with
  | positive => exact ne_of_gt hpos
  | negative =>
      show ((-(m : ℤ) : ℤ) : ℚ) * 2 ^ e ≠ 0
      rw [Int.cast_neg, neg_mul, neg_ne_zero]
      exact ne_of_gt hpos

/-- Zeros are the only finite doubles of value zero. -/
theorem value_eq_zero_iff {x : Float} (h : x.isFinite = true) :
    value x = 0 ↔ (x == 0) = true := by
  rw [beq_zero_iff]
  constructor
  · intro hzero
    by_contra h0
    rw [value, unpack_toModel, unpacked_finite _ h0 (isFinite_iff.mp h)] at hzero
    exact exactValue_finite_ne_zero _ _ hzero
  · intro h0
    rw [value, unpack_toModel, h0, unpacked_zero]
    rfl

/-- A double that is packed from its own unpacked form is the same. -/
theorem eq_of_unpack {x : Float} {u : UnpackedFloat} (h : x.toModel.unpack = u) :
    ofUnpacked u = x := by
  rw [← h, ofUnpacked_unpack]

/-- A double has the canonical mantissa of its value, and its sign. -/
theorem unpack_of_value {z : Float} (hz : z.isFinite = true) (s : Sign) {m : Nat} {e : Int}
    (hm : 0 < m) (h : exactValue (.finite s m e hm) = value z) :
    ∃ n f hpos, z.toModel.unpack = .finite s n f hpos ∧ IsCanonical n f
      ∧ (m : ℚ) * 2 ^ e = n * 2 ^ f := by
  have hleft := @exactValue_finite_pos m e hm
  rcases unpack_cases hz with ⟨t, hu⟩ | ⟨t, n, f, hpos, hu, hcanonical⟩
  · rw [value_of_unpack hu] at h
    exact absurd h (exactValue_finite_ne_zero s hm)
  · have hright := @exactValue_finite_pos n f hpos
    rw [value_of_unpack hu] at h
    rw [exactValue_finite, exactValue_finite] at h
    -- Values of opposite signs differ.
    cases s <;> cases t <;> push_cast [Sign.apply] at h
    · exact ⟨n, f, hpos, hu, hcanonical, by linarith⟩
    · linarith
    · linarith
    · exact ⟨n, f, hpos, hu, hcanonical, h⟩

/-- Rounding a sum to the double of its value. -/
theorem normalize_exact {m e : Int} {z : Float} (hz : z.isFinite = true)
    (h : (m : ℚ) * 2 ^ e = value z) :
    IsExactly (ofUnpacked (UnpackedFloat.normalize Format.binary64 m e .positive)) (value z) := by
  have hround : ∀ (s : Sign) (k : Nat), s.apply k = m → 0 < k →
      ofUnpacked (UnpackedFloat.round Format.binary64 s k e) = z := by
    intro s k hk hpos
    obtain ⟨n, f, hn, hu, hcanonical, hvalue⟩ := unpack_of_value (e := e) hz s hpos (by
      rw [← h, ← hk]
      rfl)
    rw [round_exact hn hcanonical hvalue, eq_of_unpack hu]
  rcases lt_trichotomy m 0 with hm | rfl | hm
  · rw [UnpackedFloat.normalize, Int.compare_eq_lt.mpr hm]
    dsimp only
    rw [hround .negative (-m).toNat (by rw [Sign.apply]; omega) (by omega)]
    exact ⟨hz, rfl⟩
  · rw [Int.cast_zero, Rat.zero_mul] at h
    rw [← h]
    exact isExactly_zero
  · rw [UnpackedFloat.normalize, Int.compare_eq_gt.mpr hm]
    dsimp only
    rw [hround .positive m.toNat (by rw [Sign.apply]; omega) (by omega)]
    exact ⟨hz, rfl⟩

/-- A mantissa may be lengthened to be added. -/
theorem exactValue_decreased (s : Sign) (m : Nat) {e e' : Int} (h : e' ≤ e) :
    ((s.apply (m <<< (e - e').toNat : Nat) : ℤ) : ℚ) * 2 ^ e' = s.apply m * 2 ^ e := by
  rw [zpow_eq_mul h, ← mul_assoc, Nat.shiftLeft_eq]
  cases s <;> push_cast [Sign.apply] <;> ring

/-- A sum that is representable is exact. -/
theorem IsExactly.add {x y : Float} {p q : ℚ} (hx : IsExactly x p) (hy : IsExactly y q)
    (h : IsRepresentable (p + q)) : IsExactly (x + y) (p + q) := by
  obtain ⟨z, hz, hvalue⟩ := h
  obtain ⟨hx, rfl⟩ := hx
  obtain ⟨hy, rfl⟩ := hy
  rw [add_eq_ofUnpacked]
  rcases unpack_cases hx with ⟨s, hu⟩ | ⟨s, m, e, hm, hu, _⟩ <;>
    rcases unpack_cases hy with ⟨t, hv⟩ | ⟨t, n, f, hn, hv, _⟩
  · rw [hu, hv, value_of_unpack hu, value_of_unpack hv]
    cases s <;> cases t <;> exact ⟨by decide, (Rat.add_zero 0).symm⟩
  · have hsum : UnpackedFloat.add Format.binary64 x.toModel.unpack y.toModel.unpack
        = y.toModel.unpack := by rw [hu, hv]; rfl
    rw [hsum, ofUnpacked_unpack, value_of_unpack hu]
    exact ⟨hy, (Rat.zero_add _).symm⟩
  · have hsum : UnpackedFloat.add Format.binary64 x.toModel.unpack y.toModel.unpack
        = x.toModel.unpack := by rw [hu, hv]; rfl
    rw [hsum, ofUnpacked_unpack, value_of_unpack hv]
    exact ⟨hx, (Rat.add_zero _).symm⟩
  · have hsum : UnpackedFloat.add Format.binary64 x.toModel.unpack y.toModel.unpack
        = UnpackedFloat.normalize Format.binary64
            (s.apply (m <<< (e - min e f).toNat : Nat) + t.apply (n <<< (f - min e f).toNat : Nat))
            (min e f) .positive := by
      rw [hu, hv]
      rfl
    rw [hsum, ← hvalue]
    refine normalize_exact hz ?_
    rw [hvalue, Int.cast_add, add_mul, exactValue_decreased s m (min_le_left e f),
      exactValue_decreased t n (min_le_right e f), value_of_unpack hu, value_of_unpack hv]
    rfl

/-- The opposite is always exact. -/
theorem value_neg (x : Float) : value (-x) = -value x := by
  rw [value, unpack_neg, value]
  cases x.toModel.unpack with
  | finite s m e hm =>
      show (((-s).apply m : ℤ) : ℚ) * 2 ^ e = -((s.apply m : ℤ) * 2 ^ e)
      cases s <;> push_cast [Sign.apply] <;> ring
  | notANumber => rfl
  | infinity s => rfl
  | zero s => rfl

theorem IsExactly.neg {x : Float} {q : ℚ} (h : IsExactly x q) : IsExactly (-x) (-q) :=
  ⟨isFinite_neg h.finite, by rw [value_neg, h.value_eq]⟩

/-- A product that is representable is exact. -/
theorem IsExactly.mul {x y : Float} {p q : ℚ} (hx : IsExactly x p) (hy : IsExactly y q)
    (h : IsRepresentable (p * q)) : IsExactly (x * y) (p * q) := by
  obtain ⟨z, hz, hvalue⟩ := h
  obtain ⟨hx, rfl⟩ := hx
  obtain ⟨hy, rfl⟩ := hy
  rw [mul_eq_ofUnpacked]
  rcases unpack_cases hx with ⟨s, hu⟩ | ⟨s, m, e, hm, hu, hmcanonical⟩ <;>
    rcases unpack_cases hy with ⟨t, hv⟩ | ⟨t, n, f, hn, hv, hncanonical⟩
  · rw [hu, hv, value_of_unpack hu, value_of_unpack hv]
    cases s <;> cases t <;> exact ⟨by decide, (Rat.mul_zero 0).symm⟩
  · have hproduct : UnpackedFloat.mul Format.binary64 x.toModel.unpack y.toModel.unpack
        = .zero (s * t) := by rw [hu, hv]; rfl
    rw [hproduct, value_of_unpack hu]
    refine ⟨by cases s <;> cases t <;> decide, ?_⟩
    rw [show exactValue (.zero s) = 0 from rfl, Rat.zero_mul]
    cases s <;> cases t <;> rfl
  · have hproduct : UnpackedFloat.mul Format.binary64 x.toModel.unpack y.toModel.unpack
        = .zero (s * t) := by rw [hu, hv]; rfl
    rw [hproduct, value_of_unpack hv]
    refine ⟨by cases s <;> cases t <;> decide, ?_⟩
    rw [show exactValue (.zero t) = 0 from rfl, Rat.mul_zero]
    cases s <;> cases t <;> rfl
  · have hproduct : UnpackedFloat.mul Format.binary64 x.toModel.unpack y.toModel.unpack
        = roundWithAccuracy Format.binary64 (s * t) (m * n) (e + f) .exact := by
      rw [hu, hv]
      rfl
    have hexact : exactValue (.finite (s * t) (m * n) (e + f) (Nat.mul_pos hm hn)) = value z := by
      have hpow : (2 : ℚ) ^ (e + f) = 2 ^ e * 2 ^ f := zpow_add₀ two_ne_zero e f
      rw [hvalue, value_of_unpack hu, value_of_unpack hv, exactValue_finite, exactValue_finite,
        exactValue_finite, hpow]
      cases s <;> cases t <;> push_cast [Sign.apply] <;> ring
    obtain ⟨k, g, hpos, hz', hcanonical, heq⟩ := unpack_of_value hz _ _ hexact
    -- The product of two mantissas is short only if both exponents are the least one.
    have hlong : 2 ^ 52 ≤ m * n ∨ e + f ≤ -1074 := by
      rcases hmcanonical.normal_or_least with hlong | hleast
      · exact .inl (hlong.trans (Nat.le_mul_of_pos_right m hn))
      · rcases hncanonical.normal_or_least with hlong | hleast'
        · exact .inl (hlong.trans (Nat.le_mul_of_pos_left n hm))
        · exact .inr (by omega)
    rw [hproduct, roundWithAccuracy_exact hpos hcanonical heq _ (hcanonical.exponent_le heq hlong),
      eq_of_unpack hz']
    exact ⟨hz, hvalue⟩

/-! ### Equality -/

/-- A value other than zero is that of one double only. -/
theorem eq_of_value {x y : Float} (hx : x.isFinite = true) (hy : y.isFinite = true)
    (h : value x = value y) (h0 : value x ≠ 0) : x = y := by
  rcases unpack_cases hx with ⟨s, hu⟩ | ⟨s, m, e, hm, hu, hcanonical⟩
  · exact absurd (value_of_unpack hu) h0
  · obtain ⟨n, f, hn, hv, hncanonical, hvalue⟩ := unpack_of_value hy s hm
      ((value_of_unpack hu).symm.trans h)
    obtain ⟨rfl, rfl⟩ := hcanonical.unique hncanonical hvalue
    rw [← eq_of_unpack hu, ← eq_of_unpack hv]

/-- Finite doubles are compared by their values. -/
theorem IsExactly.beq {x y : Float} {q : ℚ} (h : IsExactly x q) (h' : IsExactly y q) :
    (x == y) = true := by
  obtain ⟨hx, rfl⟩ := h
  obtain ⟨hy, h⟩ := h'
  by_cases h0 : value x = 0
  · have hcode := beq_zero_iff.mp ((value_eq_zero_iff hx).mp h0)
    have hcode' := beq_zero_iff.mp ((value_eq_zero_iff hy).mp (h.trans h0))
    exact beq_iff.mpr ⟨by omega, by omega, .inr ⟨hcode, hcode'⟩⟩
  · rw [eq_of_value hx hy h.symm h0]
    exact beq_self (Nat.le_of_lt (isFinite_iff.mp hy))

/-! ### Integers -/

theorem IsRepresentable.neg {q : ℚ} (h : IsRepresentable q) : IsRepresentable (-q) := by
  obtain ⟨x, hx⟩ := h
  exact ⟨-x, hx.neg⟩

/-- Each canonical mantissa that is not too large is one of a double. -/
theorem isRepresentable_of_isCanonical {m : Nat} {e : Int} (hm : 0 < m) (h : IsCanonical m e)
    (he : e ≤ 971) : IsRepresentable (m * 2 ^ e) := by
  have hi : infinityCode = 2047 * 2 ^ 52 := rfl
  have hlt := h.lt
  have hge := h.ge
  obtain ⟨hmantissa, hexponent⟩ := parts_of_code h.lt h.ge h.normal_or_least
  generalize hc : (e + 1074).toNat * 2 ^ 52 + m = c at *
  have hfinite : c < infinityCode := by omega
  have h0 : c ≠ 0 := by omega
  refine ⟨ofCode false c, ?_, ?_⟩
  · rw [isFinite_iff, code_ofCode _ (by omega)]
    exact hfinite
  · rw [value, unpack_toModel, code_ofCode _ (by omega), isNegative_ofCode _ (by omega),
      unpacked_finite _ h0 hfinite]
    show exactValue _ = exactValue (.finite .positive m e hm)
    exact congrArg exactValue (finite_congr _ hmantissa hexponent)

/-- A natural number below `2 ^ 53` is one of 53 bits, if it is lengthened. -/
theorem isRepresentable_natCast {n : Nat} (h : n < 2 ^ 53) : IsRepresentable n := by
  rcases Nat.eq_zero_or_pos n with rfl | hpos
  · exact isRepresentable_zero
  have hlow : 2 ^ n.log2 ≤ n := Nat.log2_self_le (by omega)
  have hhigh : n < 2 ^ (n.log2 + 1) := Nat.lt_log2_self
  have hlog : n.log2 < 53 := (Nat.log2_lt (by omega)).mpr h
  generalize hk : 52 - n.log2 = k
  have hcanonical : IsCanonical (n * 2 ^ k) (-(k : Int)) := by
    refine ⟨?_, by omega, .inl ?_⟩
    · calc n * 2 ^ k < 2 ^ (n.log2 + 1) * 2 ^ k :=
            Nat.mul_lt_mul_of_pos_right hhigh (Nat.two_pow_pos k)
        _ = 2 ^ 53 := by rw [← Nat.pow_add, show n.log2 + 1 + k = 53 by omega]
    · calc 2 ^ 52 = 2 ^ n.log2 * 2 ^ k := by rw [← Nat.pow_add, show n.log2 + k = 52 by omega]
        _ ≤ n * 2 ^ k := Nat.mul_le_mul_right _ hlow
  have hvalue := isRepresentable_of_isCanonical (Nat.mul_pos hpos (Nat.two_pow_pos k)) hcanonical
    (by omega)
  rwa [Nat.cast_mul, Nat.cast_pow, Nat.cast_ofNat, zpow_neg, zpow_natCast,
    mul_inv_cancel_right₀ (pow_ne_zero k two_ne_zero)] at hvalue

/-- The integers below `2 ^ 53` are representable. -/
theorem isRepresentable_intCast {n : Int} (h : n.natAbs < 2 ^ 53) : IsRepresentable n := by
  have habs := isRepresentable_natCast h
  rcases Int.natAbs_eq n with hn | hn
  · rw [hn, Int.cast_natCast]
    exact habs
  · rw [hn, Int.cast_neg, Int.cast_natCast]
    exact habs.neg

/-- Whether a number is an integer that is not too large. -/
def IsIntegerUpTo (n : Nat) (q : ℚ) : Prop := q.den = 1 ∧ q.num.natAbs ≤ n

instance (n : Nat) (q : ℚ) : Decidable (IsIntegerUpTo n q) :=
  inferInstanceAs (Decidable (_ ∧ _))

section

variable {m n : Nat} {p q : ℚ}

theorem isIntegerUpTo_iff : IsIntegerUpTo n q ↔ ∃ i : ℤ, q = i ∧ i.natAbs ≤ n := by
  constructor
  · rintro ⟨hden, hnum⟩
    exact ⟨q.num, (Rat.coe_int_num_of_den_eq_one hden).symm, hnum⟩
  · rintro ⟨i, rfl, hi⟩
    exact ⟨Rat.den_intCast i, hi⟩

theorem isIntegerUpTo_zero (n : Nat) : IsIntegerUpTo n 0 := ⟨rfl, Nat.zero_le n⟩

theorem IsIntegerUpTo.mono (hq : IsIntegerUpTo m q) (h : m ≤ n) : IsIntegerUpTo n q :=
  ⟨hq.1, hq.2.trans h⟩

theorem IsIntegerUpTo.add (hp : IsIntegerUpTo m p) (hq : IsIntegerUpTo n q) :
    IsIntegerUpTo (m + n) (p + q) := by
  obtain ⟨i, rfl, hi⟩ := isIntegerUpTo_iff.mp hp
  obtain ⟨j, rfl, hj⟩ := isIntegerUpTo_iff.mp hq
  exact isIntegerUpTo_iff.mpr ⟨i + j, by push_cast; rfl, by omega⟩

theorem IsIntegerUpTo.neg (hq : IsIntegerUpTo n q) : IsIntegerUpTo n (-q) := by
  obtain ⟨i, rfl, hi⟩ := isIntegerUpTo_iff.mp hq
  exact isIntegerUpTo_iff.mpr ⟨-i, by push_cast; rfl, by omega⟩

theorem IsIntegerUpTo.mul (hp : IsIntegerUpTo m p) (hq : IsIntegerUpTo n q) :
    IsIntegerUpTo (m * n) (p * q) := by
  obtain ⟨i, rfl, hi⟩ := isIntegerUpTo_iff.mp hp
  obtain ⟨j, rfl, hj⟩ := isIntegerUpTo_iff.mp hq
  refine isIntegerUpTo_iff.mpr ⟨i * j, by push_cast; rfl, ?_⟩
  rw [Int.natAbs_mul]
  exact Nat.mul_le_mul hi hj

theorem IsIntegerUpTo.isRepresentable (hq : IsIntegerUpTo n q) (hn : n < 2 ^ 53) :
    IsRepresentable q := by
  obtain ⟨i, rfl, hi⟩ := isIntegerUpTo_iff.mp hq
  exact isRepresentable_intCast (Nat.lt_of_le_of_lt hi hn)

end

end LinearProgram.Binary64
