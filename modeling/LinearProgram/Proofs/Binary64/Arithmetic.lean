import LinearProgram.Proofs.Binary64.Bits

/-!
# `LinearProgram.Proofs.Binary64.Arithmetic`: exact steps of double arithmetic

Reading a model adds and multiplies doubles, but nearly always with an
operand for which nothing is rounded. The laws of these steps:

* `one_mul`, `mul_one`, `mul_neg_one`: one and minus one only touch the
  sign. A mantissa scaled by `2 ^ 52` rounds back to itself
  (`roundWithAccuracy_scaled`).
* `zero_add`, `add_zero`, `add_neg_zero`, `sub_zero`: zeros are neutral,
  up to the sign of zero.
* `add_ne_neg_zero`, `sub_ne_neg_zero`: negative zero does not come out
  of a sum that did not start with it.
* `code_sub_le`: the difference of finite numbers is a number.
-/

set_option autoImplicit false

namespace LinearProgram.Binary64

open Float.Model Float.Model.UnpackedFloat

/-! ### Rounding what is exact -/

/-- Halving a multiple of a power of two loses no bit. -/
theorem repeat_shiftRightOne (m k : Nat) :
    Nat.repeat ExtendedMantissa.shiftRightOne k ⟨m * 2 ^ k, false, false⟩
      = ⟨m, false, false⟩ := by
  induction k generalizing m with
  | zero => rw [Nat.pow_zero, Nat.mul_one]; rfl
  | succ k ih =>
      have hm : m * 2 ^ (k + 1) = 2 * m * 2 ^ k := by
        rw [Nat.pow_succ, Nat.mul_comm (2 ^ k) 2, ← Nat.mul_assoc, Nat.mul_comm m 2]
      rw [Nat.repeat, hm, ih]
      simp [ExtendedMantissa.shiftRightOne]

theorem log2_scaled {m : Nat} (h0 : 0 < m) (k : Nat) : (m * 2 ^ k).log2 = m.log2 + k := by
  rw [Nat.log2_eq_iff (Nat.mul_ne_zero (by omega) (Nat.ne_of_gt (Nat.two_pow_pos k)))]
  have h1 : 2 ^ m.log2 ≤ m := Nat.log2_self_le (by omega)
  have h2 : m < 2 ^ (m.log2 + 1) := Nat.lt_log2_self
  constructor
  · rw [Nat.pow_add]
    exact Nat.mul_le_mul_right _ h1
  · rw [Nat.add_right_comm, Nat.pow_add]
    exact Nat.mul_lt_mul_of_pos_right h2 (Nat.two_pow_pos k)

/-- The exponent that rounding aims at, where the mantissa is one of a
code and has been scaled. -/
theorem targetExponent_scaled {m k : Nat} {e : Int} (h0 : 0 < m) (hlt : m < 2 ^ 53)
    (he : -1074 ≤ e) (hge : 2 ^ 52 ≤ m ∨ e = -1074) :
    Format.binary64.targetExponent (totalExponent (m * 2 ^ k) (e - k)) = e := by
  have hm : Format.binary64.mantissaBits = 53 := rfl
  have hmin : Format.binary64.minExponent = -1074 := rfl
  rw [Format.targetExponent, totalExponent, log2_scaled h0, hm, hmin]
  have hup : m.log2 < 53 := (Nat.log2_lt (by omega)).mpr hlt
  rcases hge with hge | hge
  · have hlo : 52 ≤ m.log2 := (Nat.le_log2 (by omega)).mpr hge
    omega
  · omega

/-- Rounding to a mantissa that does not vanish: a first shift with
rounding, and a second one in case the mantissa has become too long. -/
theorem roundWithAccuracy_finite (s : Sign) {m : Nat} {e : Int} {first second : ExtendedMantissa × Int}
    (hfirst : shiftToTargetExponent Format.binary64 m e .exact = first)
    (hsecond : shiftToTargetExponent Format.binary64 first.1.roundedMantissa first.2 .exact = second)
    (h : 0 < second.1.mantissa) :
    roundWithAccuracy Format.binary64 s m e .exact = .finite s second.1.mantissa second.2 h := by
  subst hfirst hsecond
  exact dif_neg (Nat.ne_of_gt h)

/-- Rounding a scaled mantissa of a code gives the mantissa back. -/
theorem roundWithAccuracy_scaled (s : Sign) {m k : Nat} {e : Int} (h0 : 0 < m) (hlt : m < 2 ^ 53)
    (he : -1074 ≤ e) (hge : 2 ^ 52 ≤ m ∨ e = -1074) :
    roundWithAccuracy Format.binary64 s (m * 2 ^ k) (e - k) .exact = .finite s m e h0 := by
  have hshift : ∀ j : Nat, shiftToTargetExponent Format.binary64 (m * 2 ^ j) (e - j) .exact
      = (⟨m, false, false⟩, e) := by
    intro j
    rw [shiftToTargetExponent, targetExponent_scaled h0 hlt he hge, shiftToExponent]
    have hj : (e - (e - (j : Int))).toNat = j := by omega
    rw [hj]
    refine Prod.ext (repeat_shiftRightOne m j) ?_
    show e - (j : Int) + (j : Int) = e
    omega
  have hfirst := hshift k
  have hsecond := hshift 0
  rw [Nat.pow_zero, Nat.mul_one, Int.natCast_zero, Int.sub_zero] at hsecond
  exact roundWithAccuracy_finite s hfirst hsecond h0

/-! ### Multiplying by one and minus one -/

theorem add_eq_ofUnpacked (x y : Float) :
    x + y = ofUnpacked (UnpackedFloat.add Format.binary64 x.toModel.unpack y.toModel.unpack) := rfl

theorem sub_eq_ofUnpacked (x y : Float) :
    x - y = ofUnpacked (UnpackedFloat.sub Format.binary64 x.toModel.unpack y.toModel.unpack) := rfl

theorem mul_eq_ofUnpacked (x y : Float) :
    x * y = ofUnpacked (UnpackedFloat.mul Format.binary64 x.toModel.unpack y.toModel.unpack) := rfl

theorem neg_eq_ofUnpacked (x : Float) : -x = ofUnpacked x.toModel.unpack.neg := rfl

theorem unpack_one : (1 : Float).toModel.unpack
    = .finite .positive (2 ^ 52) (-52) (Nat.two_pow_pos 52) := rfl

theorem unpack_neg_one : (-1 : Float).toModel.unpack
    = .finite .negative (2 ^ 52) (-52) (Nat.two_pow_pos 52) := rfl

theorem unpack_zero : (0 : Float).toModel.unpack = .zero .positive := rfl

theorem unpack_neg_zero : (-0 : Float).toModel.unpack = .zero .negative := rfl

theorem mul_comm (x y : Float) : x * y = y * x := by
  rw [mul_eq_ofUnpacked, mul_eq_ofUnpacked]
  refine congrArg ofUnpacked ?_
  have hsign : ∀ s t : Sign, s * t = t * s := by
    intro s t
    cases s <;> cases t <;> rfl
  cases x.toModel.unpack with
  | notANumber => cases y.toModel.unpack <;> rfl
  | infinity s =>
      cases y.toModel.unpack with
      | notANumber => rfl
      | zero t => rfl
      | infinity t => exact congrArg UnpackedFloat.infinity (hsign s t)
      | finite t m e hm => exact congrArg UnpackedFloat.infinity (hsign s t)
  | zero s =>
      cases y.toModel.unpack with
      | notANumber => rfl
      | infinity t => rfl
      | zero t => exact congrArg UnpackedFloat.zero (hsign s t)
      | finite t m e hm => exact congrArg UnpackedFloat.zero (hsign s t)
  | finite s m e hm =>
      cases y.toModel.unpack with
      | notANumber => rfl
      | infinity t => exact congrArg UnpackedFloat.infinity (hsign s t)
      | zero t => exact congrArg UnpackedFloat.zero (hsign s t)
      | finite t m' e' hm' =>
          show roundWithAccuracy Format.binary64 (s * t) (m * m') (e + e') .exact = _
          rw [hsign, Nat.mul_comm, Int.add_comm]
          rfl

/-- Multiplying by one or by minus one only touches the sign. -/
theorem mul_unit (s : Sign) (negative : Bool) (c : Nat) :
    UnpackedFloat.mul Format.binary64 (unpacked negative c)
        (.finite s (2 ^ 52) (-52) (Nat.two_pow_pos 52))
      = match s with
        | .positive => unpacked negative c
        | .negative => (unpacked negative c).neg := by
  rcases code_cases c with h | h | h | ⟨h0, h⟩
  · rw [unpacked_notANumber negative h]
    cases s <;> rfl
  · rw [h, unpacked_infinity]
    cases s <;> cases negative <;> rfl
  · rw [h, unpacked_zero]
    cases s <;> cases negative <;> rfl
  · rw [unpacked_finite negative h0 h]
    have hround := roundWithAccuracy_scaled (k := 52) (signOf negative * s) (mantissa_pos h0)
      (mantissa_lt c) (exponent_ge c) (mantissa_ge_or c)
    refine hround.trans ?_
    cases s <;> cases negative <;> rfl

theorem mul_one (x : Float) : x * 1 = x := by
  rw [mul_eq_ofUnpacked, unpack_one, unpack_toModel, mul_unit, ← unpack_toModel,
    ofUnpacked_unpack]

theorem one_mul (x : Float) : 1 * x = x := by
  rw [mul_comm, mul_one]

theorem mul_neg_one (x : Float) : x * (-1) = -x := by
  rw [mul_eq_ofUnpacked, unpack_neg_one, unpack_toModel, mul_unit, ← unpack_toModel,
    neg_eq_ofUnpacked]

theorem neg_one_mul (x : Float) : -1 * x = -x := by
  rw [mul_comm, mul_neg_one]

/-! ### Signs -/

theorem neg_unpacked (negative : Bool) (c : Nat) :
    (unpacked negative c).neg = unpacked (!negative) c := by
  rcases code_cases c with h | h | h | ⟨h0, h⟩
  · rw [unpacked_notANumber negative h, unpacked_notANumber (!negative) h]
    rfl
  · rw [h, unpacked_infinity, unpacked_infinity]
    cases negative <;> rfl
  · rw [h, unpacked_zero, unpacked_zero]
    cases negative <;> rfl
  · rw [unpacked_finite negative h0 h, unpacked_finite (!negative) h0 h]
    cases negative <;> rfl

theorem neg_ofCode (negative : Bool) {c : Nat} (h : c ≤ infinityCode) :
    -ofCode negative c = ofCode (!negative) c := by
  have hi : infinityCode = 2047 * 2 ^ 52 := rfl
  have hs : signBit = 2 ^ 63 := rfl
  rw [neg_eq_ofUnpacked, unpack_toModel, isNegative_ofCode negative h, code_ofCode negative h,
    neg_unpacked, ofCode_eq_ofUnpacked (!negative) (by omega)]

/-- What is not a number is its own opposite. -/
theorem neg_notANumber {x : Float} (h : infinityCode < code x) : -x = x := by
  rw [neg_eq_ofUnpacked, unpack_toModel, unpacked_notANumber _ h]
  refine Eq.trans ?_ (ofUnpacked_unpack x)
  rw [unpack_toModel, unpacked_notANumber _ h]
  rfl

theorem code_neg (x : Float) : code (-x) = code x := by
  by_cases h : code x ≤ infinityCode
  · rw [← ofCode_code h, neg_ofCode _ h, code_ofCode _ h, code_ofCode _ h]
  · rw [neg_notANumber (by omega)]

theorem isNegative_neg {x : Float} (h : code x ≤ infinityCode) :
    isNegative (-x) = !isNegative x := by
  rw [← ofCode_code h, neg_ofCode _ h, isNegative_ofCode _ h, isNegative_ofCode _ h]

theorem neg_neg (x : Float) : - -x = x := by
  by_cases h : code x ≤ infinityCode
  · rw [← ofCode_code h, neg_ofCode _ h, neg_ofCode _ h, Bool.not_not]
  · have hx := neg_notANumber (Nat.lt_of_not_le h)
    rw [hx, hx]

theorem unpack_neg (x : Float) : (-x).toModel.unpack = x.toModel.unpack.neg := by
  by_cases h : code x ≤ infinityCode
  · rw [unpack_toModel (-x), isNegative_neg h, code_neg, ← neg_unpacked, ← unpack_toModel]
  · rw [neg_notANumber (Nat.lt_of_not_le h), unpack_toModel,
      unpacked_notANumber _ (Nat.lt_of_not_le h)]
    rfl

/-- Taking away is adding the opposite. -/
theorem sub_eq_add_neg (x y : Float) : x - y = x + -y := by
  rw [sub_eq_ofUnpacked, add_eq_ofUnpacked, unpack_neg]
  refine congrArg ofUnpacked ?_
  cases x.toModel.unpack with
  | finite s m e hm =>
      cases y.toModel.unpack with
      | finite t m' e' hm' =>
          have hneg : ∀ k : Nat, (-t).apply k = -t.apply k := by
            intro k
            cases t with
            | positive => rfl
            | negative => exact (Int.neg_neg k).symm
          show UnpackedFloat.normalize Format.binary64 (s.apply _ - t.apply _) _ _
            = UnpackedFloat.normalize Format.binary64 (s.apply _ + (-t).apply _) _ _
          rw [hneg, Int.sub_eq_add_neg]
      | _ => rfl
  | zero s =>
      cases y.toModel.unpack with
      | zero t => cases s <;> cases t <;> rfl
      | _ => rfl
  | infinity s =>
      cases y.toModel.unpack with
      | infinity t => cases s <;> cases t <;> rfl
      | _ => rfl
  | notANumber => rfl

/-! ### Adding and subtracting zero -/

theorem eq_neg_zero_iff {x : Float} : x = -0 ↔ x.toModel.unpack = .zero .negative := by
  constructor
  · rintro rfl
    rfl
  · intro h
    rw [← ofUnpacked_unpack x, h]
    rfl

/-- Zero is neutral in front of everything but negative zero. -/
theorem zero_add {x : Float} (h : x ≠ -0) : 0 + x = x := by
  rw [add_eq_ofUnpacked, unpack_zero]
  refine Eq.trans ?_ (ofUnpacked_unpack x)
  have hx := mt eq_neg_zero_iff.mpr h
  generalize x.toModel.unpack = u at *
  cases u with
  | notANumber => rfl
  | infinity s => rfl
  | zero s =>
      cases s with
      | negative => exact absurd rfl hx
      | positive => rfl
  | finite s m e hm => rfl

/-- Zero is neutral behind everything but negative zero. -/
theorem add_zero {x : Float} (h : x ≠ -0) : x + 0 = x := by
  rw [add_eq_ofUnpacked, unpack_zero]
  refine Eq.trans ?_ (ofUnpacked_unpack x)
  have hx := mt eq_neg_zero_iff.mpr h
  generalize x.toModel.unpack = u at *
  cases u with
  | notANumber => rfl
  | infinity s => rfl
  | zero s =>
      cases s with
      | negative => exact absurd rfl hx
      | positive => rfl
  | finite s m e hm => rfl

/-- Negative zero is neutral behind everything. -/
theorem add_neg_zero (x : Float) : x + (-0) = x := by
  rw [add_eq_ofUnpacked, unpack_neg_zero]
  refine Eq.trans ?_ (ofUnpacked_unpack x)
  generalize x.toModel.unpack = u
  cases u with
  | notANumber => rfl
  | infinity s => rfl
  | zero s => cases s <;> rfl
  | finite s m e hm => rfl

theorem sub_zero (x : Float) : x - 0 = x := by
  rw [sub_eq_add_neg, add_neg_zero]

/-! ### Sums that are not negative zero

Rounding a positive mantissa never gives zero, because all exponents
are at least the least one; a sum that cancels is positive zero. So
only negative zero leads to negative zero. -/

theorem mantissa_repeat_shiftRightOne (k : Nat) (em : ExtendedMantissa) :
    (Nat.repeat ExtendedMantissa.shiftRightOne k em).mantissa = em.mantissa / 2 ^ k := by
  induction k with
  | zero => simp [Nat.repeat]
  | succ k ih =>
      rw [Nat.repeat, ExtendedMantissa.shiftRightOne, ih, Nat.div_div_eq_div_mul, Nat.pow_succ]

theorem mantissa_shiftToTargetExponent (m : Nat) (e : Int) :
    (shiftToTargetExponent Format.binary64 m e .exact).1.mantissa
      = m / 2 ^ (Format.binary64.targetExponent (totalExponent m e) - e).toNat := by
  show (Nat.repeat ExtendedMantissa.shiftRightOne _ _).mantissa = _
  rw [mantissa_repeat_shiftRightOne]
  rfl

/-- Shifting a positive mantissa to its target exponent leaves a
positive mantissa of at most 53 bits. -/
theorem shifted_bounds {m : Nat} {e : Int} (hm : 0 < m) (he : -1074 ≤ e) :
    0 < m / 2 ^ (Format.binary64.targetExponent (totalExponent m e) - e).toNat ∧
      m / 2 ^ (Format.binary64.targetExponent (totalExponent m e) - e).toNat < 2 ^ 53 := by
  have h1 : 2 ^ m.log2 ≤ m := Nat.log2_self_le (by omega)
  have h2 : m < 2 ^ (m.log2 + 1) := Nat.lt_log2_self
  have htarget : Format.binary64.targetExponent (totalExponent m e)
      = max ((m.log2 : Int) + 1 + e - 53) (-1074) := rfl
  rw [htarget]
  generalize m.log2 = l at *
  rcases Nat.lt_or_ge l 52 with hl | hl
  · have hk : (max ((l : Int) + 1 + e - 53) (-1074) - e).toNat = 0 := by omega
    rw [hk, Nat.pow_zero, Nat.div_one]
    exact ⟨hm, Nat.lt_of_lt_of_le h2 (Nat.pow_le_pow_right (by omega) (by omega))⟩
  · have hk : (max ((l : Int) + 1 + e - 53) (-1074) - e).toNat = l - 52 := by omega
    rw [hk]
    constructor
    · exact Nat.div_pos (Nat.le_trans (Nat.pow_le_pow_right (by omega) (by omega)) h1)
        (Nat.two_pow_pos _)
    · rw [Nat.div_lt_iff_lt_mul (Nat.two_pow_pos _), ← Nat.pow_add]
      exact Nat.lt_of_lt_of_le h2 (Nat.pow_le_pow_right (by omega) (by omega))

/-- Rounding a positive mantissa gives a finite number of at most 53
bits. -/
theorem roundWithAccuracy_bounds (s : Sign) {m : Nat} {e : Int} (hm : 0 < m) (he : -1074 ≤ e) :
    ∃ m' e' h, roundWithAccuracy Format.binary64 s m e .exact = .finite s m' e' h
      ∧ m' < 2 ^ 53 ∧ -1074 ≤ e' := by
  have hfirst := shifted_bounds hm he
  rw [← mantissa_shiftToTargetExponent] at hfirst
  have hexp : -1074 ≤ (shiftToTargetExponent Format.binary64 m e .exact).2 := by
    show -1074 ≤ e + ((_ : Nat) : Int)
    omega
  generalize hshift : shiftToTargetExponent Format.binary64 m e .exact = first at *
  obtain ⟨em, e₁⟩ := first
  have hpos : 0 < em.roundedMantissa := by
    refine Nat.lt_of_lt_of_le hfirst.1 ?_
    rw [ExtendedMantissa.roundedMantissa]
    cases em.accuracy with
    | exact => exact Nat.le_refl _
    | inexact o => cases o <;> simp [Accuracy.roundToNearestEven]
  have hsecond := shifted_bounds hpos hexp
  rw [← mantissa_shiftToTargetExponent] at hsecond
  refine ⟨_, _, hsecond.1, roundWithAccuracy_finite s hshift rfl hsecond.1, hsecond.2, ?_⟩
  show -1074 ≤ e₁ + ((_ : Nat) : Int)
  have : -1074 ≤ e₁ := hexp
  omega

theorem code_ofUnpacked_finite_ne_zero (s : Sign) {m : Nat} {e : Int} (hm : 0 < m)
    (hlt : m < 2 ^ 53) (he : -1074 ≤ e) : code (ofUnpacked (.finite s m e hm)) ≠ 0 := by
  have hs : signBit = 2 ^ 63 := rfl
  have hsign : s.toBitVec.toNat ≤ 1 := by cases s <;> decide
  rw [code, toNat_toBits_ofUnpacked, pack_finite, hs]
  split
  · rw [packedInfinity, toNat_packComponents]
    rw [show (-BitVec.ofNat Format.binary64.exponentBits 1).toNat = 2047 from rfl,
      show (0 : BitVec 52).toNat = 0 from rfl]
    omega
  · split
    · rw [toNat_packComponents]
      simp only [BitVec.toNat_ofNat]
      omega
    · have hlog' : m.log2 < 53 := (Nat.log2_lt (by omega)).mpr hlt
      have hm' : m < 2 ^ 52 := (Nat.log2_lt (by omega)).mp (by omega)
      rw [toNat_packComponents]
      simp only [BitVec.toNat_ofNat]
      omega

/-- A normalized sum of doubles is not negative zero. -/
theorem ofUnpacked_normalize_ne (m : Int) {e : Int} (he : -1074 ≤ e) :
    ofUnpacked (UnpackedFloat.normalize Format.binary64 m e .positive) ≠ -0 := by
  have hround : ∀ (s : Sign) (m : Nat), 0 < m →
      ofUnpacked (round Format.binary64 s m e) ≠ -0 := by
    intro s m hm h
    have hpos : 0 < m <<< (e - Format.binary64.targetExponent (totalExponent m e)).toNat := by
      rw [Nat.shiftLeft_eq]
      exact Nat.mul_pos hm (Nat.two_pow_pos _)
    have hexp : -1074 ≤ e
        - ((e - Format.binary64.targetExponent (totalExponent m e)).toNat : Int) := by
      have : (-1074 : Int) ≤ Format.binary64.targetExponent (totalExponent m e) :=
        Int.le_max_right _ _
      omega
    obtain ⟨m', e', hm', hr, hlt, he'⟩ := roundWithAccuracy_bounds s hpos hexp
    have hc := code_ofUnpacked_finite_ne_zero s hm' hlt he'
    rw [← hr] at hc
    refine hc ?_
    show code (ofUnpacked (round Format.binary64 s m e)) = 0
    rw [h]
    rfl
  rw [UnpackedFloat.normalize]
  split
  · rename_i hlt
    exact hround _ _ (by have := Int.compare_eq_lt.mp hlt; omega)
  · decide
  · rename_i hgt
    exact hround _ _ (by have := Int.compare_eq_gt.mp hgt; omega)

theorem exponent_unpack {x : Float} {s : Sign} {m : Nat} {e : Int} {h : 0 < m}
    (hx : x.toModel.unpack = .finite s m e h) : -1074 ≤ e := by
  rw [unpack_toModel] at hx
  rcases code_cases (code x) with h' | h' | h' | ⟨h0, h'⟩
  · rw [unpacked_notANumber _ h'] at hx
    cases hx
  · rw [h', unpacked_infinity] at hx
    cases hx
  · rw [h', unpacked_zero] at hx
    cases hx
  · rw [unpacked_finite _ h0 h'] at hx
    cases hx
    exact exponent_ge _

theorem ofUnpacked_infinity_ne (s : Sign) : ofUnpacked (.infinity s) ≠ -0 := by
  cases s <;> decide

theorem ofUnpacked_notANumber_ne : ofUnpacked .notANumber ≠ -0 := by decide

/-- Only negative zero is the start of a sum that is negative zero. -/
theorem add_ne_neg_zero {x : Float} (y : Float) (hx : x ≠ -0) : x + y ≠ -0 := by
  have hx' := mt eq_neg_zero_iff.mpr hx
  rw [add_eq_ofUnpacked]
  cases hu : x.toModel.unpack with
  | notANumber => exact ofUnpacked_notANumber_ne
  | infinity s =>
      cases y.toModel.unpack with
      | notANumber => exact ofUnpacked_notANumber_ne
      | infinity t => cases s <;> cases t <;> decide
      | zero t => exact ofUnpacked_infinity_ne s
      | finite t m e hm => exact ofUnpacked_infinity_ne s
  | zero s =>
      cases s with
      | negative => exact absurd hu hx'
      | positive =>
          cases hv : y.toModel.unpack with
          | notANumber => exact ofUnpacked_notANumber_ne
          | infinity t => exact ofUnpacked_infinity_ne t
          | zero t => cases t <;> decide
          | finite t m e hm =>
              show ofUnpacked (.finite t m e hm) ≠ -0
              rw [← hv, ofUnpacked_unpack, ne_eq, eq_neg_zero_iff, hv]
              exact nofun
  | finite s m e hm =>
      cases hv : y.toModel.unpack with
      | notANumber => exact ofUnpacked_notANumber_ne
      | infinity t => exact ofUnpacked_infinity_ne t
      | zero t =>
          show ofUnpacked (.finite s m e hm) ≠ -0
          rwa [← hu, ofUnpacked_unpack]
      | finite t m' e' hm' =>
          have he := exponent_unpack hu
          have he' := exponent_unpack hv
          exact ofUnpacked_normalize_ne _ (show -1074 ≤ min e e' by omega)

/-- Only negative zero is what leaves negative zero when something is
taken from it. -/
theorem sub_ne_neg_zero {x : Float} (y : Float) (hx : x ≠ -0) : x - y ≠ -0 := by
  rw [sub_eq_add_neg]
  exact add_ne_neg_zero _ hx

/-- What is packed is a number unless it was none before. -/
theorem code_ofUnpacked_le {u : UnpackedFloat} (h : u ≠ .notANumber) :
    code (ofUnpacked u) ≤ infinityCode := by
  have hi : infinityCode = 2047 * 2 ^ 52 := rfl
  have hs : signBit = 2 ^ 63 := rfl
  cases u with
  | notANumber => exact absurd rfl h
  | infinity s => cases s <;> decide
  | zero s => cases s <;> decide
  | finite s m e hm =>
      have hsign : s.toBitVec.toNat ≤ 1 := by cases s <;> decide
      rw [code, toNat_toBits_ofUnpacked, pack_finite, hs, hi]
      split
      · rw [packedInfinity, toNat_packComponents,
          show (-BitVec.ofNat Format.binary64.exponentBits 1).toNat = 2047 from rfl,
          show (0 : BitVec 52).toNat = 0 from rfl]
        omega
      · split <;>
          · rw [toNat_packComponents]
            simp only [BitVec.toNat_ofNat]
            omega

theorem unpack_of_code_lt {x : Float} (h : code x < infinityCode) :
    (∃ s, x.toModel.unpack = .zero s) ∨ ∃ s m e h, x.toModel.unpack = .finite s m e h := by
  rw [unpack_toModel]
  by_cases h0 : code x = 0
  · rw [h0, unpacked_zero]
    exact .inl ⟨_, rfl⟩
  · rw [unpacked_finite _ h0 h]
    exact .inr ⟨_, _, _, _, rfl⟩

theorem roundWithAccuracy_ne_notANumber (s : Sign) (m : Nat) (e : Int) :
    roundWithAccuracy Format.binary64 s m e .exact ≠ .notANumber := by
  obtain ⟨first, hfirst⟩ : ∃ p, shiftToTargetExponent Format.binary64 m e .exact = p := ⟨_, rfl⟩
  obtain ⟨second, hsecond⟩ :
      ∃ p, shiftToTargetExponent Format.binary64 first.1.roundedMantissa first.2 .exact = p :=
    ⟨_, rfl⟩
  rcases Nat.eq_zero_or_pos second.1.mantissa with hzero | hpos
  · have hround : roundWithAccuracy Format.binary64 s m e .exact = .zero s := by
      subst hfirst hsecond
      exact dif_pos hzero
    rw [hround]
    exact nofun
  · rw [roundWithAccuracy_finite s hfirst hsecond hpos]
    exact nofun

/-- The difference of finite numbers is a number. -/
theorem code_sub_le {x y : Float} (hx : code x < infinityCode) (hy : code y < infinityCode) :
    code (x - y) ≤ infinityCode := by
  rw [sub_eq_ofUnpacked]
  refine code_ofUnpacked_le ?_
  rcases unpack_of_code_lt hx with ⟨s, hu⟩ | ⟨s, m, e, hm, hu⟩ <;>
    rcases unpack_of_code_lt hy with ⟨t, hv⟩ | ⟨t, m', e', hm', hv⟩ <;>
    rw [hu, hv]
  · cases s <;> cases t <;> exact nofun
  · exact nofun
  · exact nofun
  · show UnpackedFloat.normalize Format.binary64 _ _ _ ≠ _
    rw [UnpackedFloat.normalize]
    split
    · exact roundWithAccuracy_ne_notANumber _ _ _
    · exact nofun
    · exact roundWithAccuracy_ne_notANumber _ _ _

end LinearProgram.Binary64
