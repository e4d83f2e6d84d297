import LinearProgram.Decimal.Binary64
import Mathlib.Algebra.Group.Nat.Defs

/-!
# `LinearProgram.Proofs.Binary64.Bits`: a double is its sign and its code

Core models a double as 64 bits and computes with the *unpacked* form: a
sign, a mantissa and an exponent, or one of the special values. This
module ties both to the sign and the code of `Binary64`:

* `unpack_toModel`: the unpacked form of a double is `unpacked` of its
  sign and its code, with the mantissa and the exponent of that code.
* `toNat_pack_unpacked`: packing puts the sign bit over the code.
* `ext_code`, `ofCode_code`, `code_ofCode`, `isNegative_ofCode`: sign
  and code determine a double, and every sign and code up to infinity
  are those of a double.
* `ofUnpacked_unpack`: unpacking and packing again changes nothing. What
  is not a number is one value, so this holds of it too.

With these facts no later module looks at bits.
-/

set_option autoImplicit false

namespace LinearProgram.Binary64

open Float.Model Float.Model.UnpackedFloat

/-! ### The fields of a bit vector -/

theorem toNat_packComponents (s : Sign) (e : BitVec 11) (m : BitVec 52) :
    BitVec.toNat (packComponents Format.binary64 s e m : BitVec 64)
      = (s.toBitVec.toNat * 2 ^ 11 + e.toNat) * 2 ^ 52 + m.toNat := by
  show BitVec.toNat (s.toBitVec ++ e ++ m) = _
  rw [BitVec.toNat_append, BitVec.toNat_append, ← Nat.shiftLeft_add_eq_or_of_lt m.isLt,
    ← Nat.shiftLeft_add_eq_or_of_lt e.isLt, Nat.shiftLeft_eq, Nat.shiftLeft_eq]

theorem toNat_unpackMantissa (b : BitVec 64) :
    (@unpackMantissa Format.binary64 b).toNat = b.toNat % 2 ^ 52 := by
  simp [unpackMantissa, BitVec.extractLsb_toNat]

theorem toNat_unpackExponent (b : BitVec 64) :
    (@unpackExponent Format.binary64 b).toNat = b.toNat / 2 ^ 52 % 2 ^ 11 := by
  simp [unpackExponent, BitVec.extractLsb_toNat, Nat.shiftRight_eq_div_pow]

theorem toNat_unpackSign (b : BitVec 64) :
    (@unpackSign Format.binary64 b).toNat = b.toNat / 2 ^ 63 % 2 := by
  show (BitVec.cast _ (b.extractLsb 63 63)).toNat = _
  simp [BitVec.extractLsb_toNat, Nat.shiftRight_eq_div_pow]

/-! ### Unpacked doubles by sign and code -/

/-- The sign of a double as the model has it. -/
def signOf (negative : Bool) : Sign := if negative then .negative else .positive

theorem mantissa_pos {code : Nat} (h : code ≠ 0) : 0 < mantissa code := by
  unfold mantissa leastNormal
  split <;> omega

/-- What a sign and a code stand for in the model of doubles. -/
def unpacked (negative : Bool) (code : Nat) : UnpackedFloat :=
  if infinityCode < code then .notANumber
  else if code = infinityCode then .infinity (signOf negative)
  else if h : code = 0 then .zero (signOf negative)
  else .finite (signOf negative) (mantissa code) (exponent code) (mantissa_pos h)

theorem unpacked_notANumber (negative : Bool) {c : Nat} (h : infinityCode < c) :
    unpacked negative c = .notANumber := by
  rw [unpacked, if_pos h]

theorem unpacked_infinity (negative : Bool) :
    unpacked negative infinityCode = .infinity (signOf negative) := by
  rw [unpacked, if_neg (Nat.lt_irrefl _), if_pos rfl]

theorem unpacked_zero (negative : Bool) : unpacked negative 0 = .zero (signOf negative) := by
  rw [unpacked, if_neg (by decide), if_neg (by decide), dif_pos rfl]

theorem unpacked_finite (negative : Bool) {c : Nat} (h0 : c ≠ 0) (h : c < infinityCode) :
    unpacked negative c
      = .finite (signOf negative) (mantissa c) (exponent c) (mantissa_pos h0) := by
  rw [unpacked, if_neg (by omega), if_neg (by omega), dif_neg h0]

/-- A code is not a number, infinity, zero, or strictly between zero
and infinity. -/
theorem code_cases (c : Nat) :
    infinityCode < c ∨ c = infinityCode ∨ c = 0 ∨ (c ≠ 0 ∧ c < infinityCode) := by
  omega

theorem mantissa_lt (c : Nat) : mantissa c < 2 ^ 53 := by
  have hl : leastNormal = 2 ^ 52 := rfl
  have hq : c / leastNormal = c / 2 ^ 52 := rfl
  have hr : c % leastNormal + leastNormal = c % 2 ^ 52 + 2 ^ 52 := rfl
  rw [mantissa]
  split <;> omega

theorem exponent_ge (c : Nat) : -1074 ≤ exponent c := by
  rw [exponent]
  omega

/-- Only the least exponent has mantissas below `2 ^ 52`. -/
theorem mantissa_ge_or (c : Nat) : 2 ^ 52 ≤ mantissa c ∨ exponent c = -1074 := by
  have hq : c / leastNormal = c / 2 ^ 52 := rfl
  have hr : c % leastNormal + leastNormal = c % 2 ^ 52 + 2 ^ 52 := rfl
  rw [mantissa, exponent]
  split <;> omega

/-- The code is read off the mantissa and the exponent. -/
theorem code_eq_of_parts (c : Nat) :
    ((exponent c + 1074).toNat * 2 ^ 52 + mantissa c) = c := by
  have hq : c / leastNormal = c / 2 ^ 52 := rfl
  have hr : c % leastNormal + leastNormal = c % 2 ^ 52 + 2 ^ 52 := rfl
  rw [mantissa, exponent]
  split <;> omega

/-! ### Unpacking and packing -/

theorem ofBitVec_unpackSign (b : BitVec 64) :
    Sign.ofBitVec (@unpackSign Format.binary64 b) = signOf (decide (signBit ≤ b.toNat)) := by
  have hb := b.isLt
  have h := toNat_unpackSign b
  have h0 : @unpackSign Format.binary64 b = 0#1 ↔ ¬ signBit ≤ b.toNat := by
    rw [← BitVec.toNat_inj, h]
    simp only [BitVec.toNat_ofNat, signBit]
    omega
  by_cases hs : signBit ≤ b.toNat <;> simp [Sign.ofBitVec, signOf, h0, hs]

theorem finite_congr (s : Sign) {m m' : Nat} {e e' : Int} {hm : 0 < m} {hm' : 0 < m'}
    (hmantissa : m = m') (hexponent : e = e') :
    UnpackedFloat.finite s m e hm = .finite s m' e' hm' := by
  subst hmantissa hexponent
  rfl

theorem unpack_eq_unpacked (b : BitVec 64) :
    UnpackedFloat.unpack Format.binary64 b
      = unpacked (decide (signBit ≤ b.toNat)) (b.toNat % signBit) := by
  have hb := b.isLt
  have hm := toNat_unpackMantissa b
  have he := toNat_unpackExponent b
  have hones : @unpackExponent Format.binary64 b = -1#_
      ↔ b.toNat / 2 ^ 52 % 2 ^ 11 = 2047 := by
    rw [← BitVec.toNat_inj, he]
    simp
  have hzero : @unpackExponent Format.binary64 b = 0#_
      ↔ b.toNat / 2 ^ 52 % 2 ^ 11 = 0 := by
    rw [← BitVec.toNat_inj, he]
    simp
  have hmzero : (@unpackMantissa Format.binary64 b = 0#_) ↔ b.toNat % 2 ^ 52 = 0 := by
    rw [← BitVec.toNat_inj, hm]
    simp
  have happ : (1#1 ++ @unpackMantissa Format.binary64 b).toNat
      = 2 ^ 52 + b.toNat % 2 ^ 52 := by
    rw [BitVec.toNat_append, ← Nat.shiftLeft_add_eq_or_of_lt (BitVec.isLt _), hm]
    simp [Nat.shiftLeft_eq]
  unfold UnpackedFloat.unpack unpacked
  dsimp only
  rw [ofBitVec_unpackSign]
  generalize signOf _ = s
  generalize hc : b.toNat % signBit = c
  generalize b.toNat = n at *
  have hi : infinityCode = 2047 * 2 ^ 52 := rfl
  have hx : (Format.binary64.exponentBias : Int) = 1023 := rfl
  have hc : c = n % 2 ^ 63 := hc.symm
  have hq : c / leastNormal = c / 2 ^ 52 := rfl
  have hr : c % leastNormal + leastNormal = c % 2 ^ 52 + 2 ^ 52 := rfl
  by_cases hlast : n / 2 ^ 52 % 2 ^ 11 = 2047
  · rw [if_pos (hones.mpr hlast)]
    by_cases hwhole : n % 2 ^ 52 = 0
    · rw [if_pos (hmzero.mpr hwhole), if_neg (by omega), if_pos (by omega)]
    · rw [if_neg (mt hmzero.mp hwhole), if_pos (by omega)]
  · rw [if_neg (mt hones.mp hlast), if_neg (show ¬ infinityCode < c by omega),
      if_neg (show ¬ c = infinityCode by omega)]
    by_cases hfirst : n / 2 ^ 52 % 2 ^ 11 = 0
    · rw [if_pos (hzero.mpr hfirst)]
      by_cases hwhole : n % 2 ^ 52 = 0
      · rw [dif_pos (hmzero.mpr hwhole), dif_pos (by omega)]
      · rw [dif_neg (mt hmzero.mp hwhole), dif_neg (by omega)]
        refine finite_congr s ?_ ?_
        · rw [hm, mantissa, if_pos (by omega)]
          omega
        · rw [he, exponent]
          omega
    · rw [if_neg (mt hzero.mp hfirst), dif_neg (by omega)]
      refine finite_congr s ?_ ?_
      · rw [happ, mantissa, if_neg (by omega)]
        omega
      · rw [he, exponent]
        omega

theorem toNat_toBitVec_signOf (negative : Bool) :
    (signOf negative).toBitVec.toNat = negative.toNat := by
  cases negative <;> rfl

/-- Packing with the numbers of the format written out. -/
theorem pack_finite (s : Sign) {m : Nat} (e : Int) (hm : 0 < m) :
    UnpackedFloat.pack Format.binary64 (.finite s m e hm)
      = if 2 ^ 11 ≤ (e + 1023 + (52 : Nat)).toNat + 1 then packedInfinity Format.binary64 s
        else if m.log2 + 1 = 53 then
          packComponents Format.binary64 s (BitVec.ofNat 11 (e + 1023 + (52 : Nat)).toNat)
            (BitVec.ofNat 52 m)
        else packComponents Format.binary64 s (BitVec.ofNat 11 0) (BitVec.ofNat 52 m) := rfl

/-- Packing puts the sign bit over the code. -/
theorem toNat_pack_unpacked (negative : Bool) {code : Nat} (h : code ≤ infinityCode) :
    (UnpackedFloat.pack Format.binary64 (unpacked negative code)).toNat
      = negative.toNat * signBit + code := by
  have hi : infinityCode = 2047 * 2 ^ 52 := rfl
  have hs : signBit = 2 ^ 63 := rfl
  rcases code_cases code with hlt | heq | hzero | ⟨h0, hlt⟩
  · omega
  · rw [heq, unpacked_infinity]
    show BitVec.toNat (packedInfinity Format.binary64 (signOf negative)) = _
    rw [packedInfinity, toNat_packComponents, toNat_toBitVec_signOf, hi, hs]
    cases negative <;> rfl
  · rw [hzero, unpacked_zero]
    show BitVec.toNat (packedZero Format.binary64 (signOf negative)) = _
    rw [packedZero, toNat_packComponents, toNat_toBitVec_signOf, hs]
    cases negative <;> rfl
  · rw [unpacked_finite negative h0 hlt]
    have hb : (exponent code + 1023 + (52 : Nat)).toNat = max (code / 2 ^ 52) 1 := by
      rw [exponent, show code / leastNormal = code / 2 ^ 52 from rfl]
      omega
    have hq : code / leastNormal = code / 2 ^ 52 := rfl
    have hr : code % leastNormal + leastNormal = code % 2 ^ 52 + 2 ^ 52 := rfl
    rw [pack_finite, hb, if_neg (show ¬ 2 ^ 11 ≤ max (code / 2 ^ 52) 1 + 1 by omega)]
    by_cases hn : code / 2 ^ 52 = 0
    · have hm : mantissa code = code := by rw [mantissa, if_pos (by omega)]
      have hlog : code.log2 < 52 := (Nat.log2_lt h0).mpr (by omega)
      rw [hm, if_neg (show ¬ code.log2 + 1 = 53 by omega), toNat_packComponents,
        toNat_toBitVec_signOf, hs]
      simp only [BitVec.toNat_ofNat]
      omega
    · have hm : mantissa code = code % 2 ^ 52 + 2 ^ 52 := by
        rw [mantissa, if_neg (by omega)]
        exact hr
      have hlog : (mantissa code).log2 = 52 := by
        rw [Nat.log2_eq_iff (by omega), hm]
        omega
      rw [hlog, if_pos rfl, toNat_packComponents, toNat_toBitVec_signOf, hm, hs]
      simp only [BitVec.toNat_ofNat]
      omega

/-! ### Doubles as signs and codes -/

theorem toNat_toBits (x : Float) : x.toBits.toNat = (isNegative x).toNat * signBit + code x := by
  have h := x.toBits.toNat_lt
  have hs : signBit = 2 ^ 63 := rfl
  simp only [isNegative, code]
  by_cases hn : signBit ≤ x.toBits.toNat
  · rw [decide_eq_true hn, Bool.toNat_true, hs]
    omega
  · rw [decide_eq_false hn, Bool.toNat_false, hs]
    omega

/-- The sign and the code determine a double. -/
theorem ext_code {x y : Float} (hs : isNegative x = isNegative y) (hc : code x = code y) :
    x = y := by
  have h : x.toBits = y.toBits := UInt64.toNat.inj (by rw [toNat_toBits, toNat_toBits, hs, hc])
  cases x with
  | ofModel m =>
      cases y with
      | ofModel n =>
          cases m
          cases n
          have h : _ = _ := h
          subst h
          rfl

theorem unpack_toModel (x : Float) : x.toModel.unpack = unpacked (isNegative x) (code x) :=
  unpack_eq_unpacked x.toBits.toBitVec

/-- The double that a value of the model is packed into. -/
def ofUnpacked (u : UnpackedFloat) : Float := .ofModel (.pack u)

theorem toNat_toBits_ofUnpacked (u : UnpackedFloat) :
    (ofUnpacked u).toBits.toNat = (UnpackedFloat.pack Format.binary64 u).toNat := rfl

theorem isNegative_ofUnpacked (negative : Bool) {c : Nat} (h : c ≤ infinityCode) :
    isNegative (ofUnpacked (unpacked negative c)) = negative := by
  have hi : infinityCode = 2047 * 2 ^ 52 := rfl
  have hs : signBit = 2 ^ 63 := rfl
  rw [isNegative, toNat_toBits_ofUnpacked, toNat_pack_unpacked negative h]
  cases negative with
  | false =>
      rw [Bool.toNat_false, decide_eq_false (by omega)]
  | true =>
      rw [Bool.toNat_true, decide_eq_true (by omega)]

theorem code_ofUnpacked (negative : Bool) {c : Nat} (h : c ≤ infinityCode) :
    code (ofUnpacked (unpacked negative c)) = c := by
  have hi : infinityCode = 2047 * 2 ^ 52 := rfl
  have hs : signBit = 2 ^ 63 := rfl
  rw [code, toNat_toBits_ofUnpacked, toNat_pack_unpacked negative h, hs]
  omega

theorem ofBits_eq_ofUnpacked (b : UInt64) :
    Float.ofBits b = ofUnpacked (UnpackedFloat.unpack Format.binary64 b.toBitVec) := rfl

/-- A double is put together through the model. -/
theorem ofCode_eq_ofUnpacked (negative : Bool) {c : Nat} (h : c < signBit) :
    ofCode negative c = ofUnpacked (unpacked negative c) := by
  have hs : signBit = 2 ^ 63 := rfl
  have hb : (UInt64.ofNat (if negative then c + signBit else c)).toBitVec.toNat
      = negative.toNat * signBit + c := by
    rw [UInt64.toNat_toBitVec, UInt64.toNat_ofNat']
    cases negative with
    | false => simp only [Bool.toNat_false, Bool.false_eq_true, if_false]; omega
    | true => simp only [Bool.toNat_true, if_true]; omega
  have hsign : decide (signBit ≤ negative.toNat * signBit + c) = negative := by
    cases negative with
    | false => exact decide_eq_false (by simp only [Bool.toNat_false]; omega)
    | true => exact decide_eq_true (by simp only [Bool.toNat_true]; omega)
  have hcode : (negative.toNat * signBit + c) % signBit = c := by
    rw [Nat.mul_add_mod_self_right, Nat.mod_eq_of_lt h]
  rw [ofCode, ofBits_eq_ofUnpacked, unpack_eq_unpacked, hb, hsign, hcode]

theorem isNegative_ofCode (negative : Bool) {c : Nat} (h : c ≤ infinityCode) :
    isNegative (ofCode negative c) = negative := by
  have hi : infinityCode = 2047 * 2 ^ 52 := rfl
  have hs : signBit = 2 ^ 63 := rfl
  rw [ofCode_eq_ofUnpacked negative (by omega), isNegative_ofUnpacked negative h]

theorem code_ofCode (negative : Bool) {c : Nat} (h : c ≤ infinityCode) :
    code (ofCode negative c) = c := by
  have hi : infinityCode = 2047 * 2 ^ 52 := rfl
  have hs : signBit = 2 ^ 63 := rfl
  rw [ofCode_eq_ofUnpacked negative (by omega), code_ofUnpacked negative h]

/-- Taking a double apart and putting it together gives the double. -/
theorem ofCode_code {x : Float} (h : code x ≤ infinityCode) :
    ofCode (isNegative x) (code x) = x :=
  ext_code (isNegative_ofCode _ h) (code_ofCode _ h)

/-- There is one value that is not a number. -/
theorem toBits_of_infinityCode_lt {x : Float} (h : infinityCode < code x) :
    x.toBits.toBitVec = packedNaN Format.binary64 := by
  have hi : infinityCode = 2047 * 2 ^ 52 := rfl
  have hs : signBit = 2 ^ 63 := rfl
  have hlt := x.toBits.toNat_lt
  have hcode : x.toBits.toNat % 2 ^ 63 > 2047 * 2 ^ 52 := h
  have he := toNat_unpackExponent x.toBits.toBitVec
  have hm := toNat_unpackMantissa x.toBits.toBitVec
  rw [UInt64.toNat_toBitVec] at he hm
  refine x.toModel.valid.eq_packedNaN ?_ ?_
  · rw [← BitVec.toNat_inj]
    refine he.trans ?_
    show _ = 2047
    omega
  · intro h0
    have h0 : x.toBits.toNat % 2 ^ 52 = 0 := hm.symm.trans (congrArg BitVec.toNat h0)
    omega

theorem eq_of_infinityCode_lt {x y : Float} (hx : infinityCode < code x)
    (hy : infinityCode < code y) : x = y := by
  have h : x.toBits = y.toBits := UInt64.toBitVec_inj.mp
    ((toBits_of_infinityCode_lt hx).trans (toBits_of_infinityCode_lt hy).symm)
  exact ext_code (by rw [isNegative, isNegative, h]) (by rw [code, code, h])

/-- Unpacking a double and packing it again gives the double. -/
theorem ofUnpacked_unpack (x : Float) : ofUnpacked x.toModel.unpack = x := by
  by_cases h : code x ≤ infinityCode
  · rw [unpack_toModel]
    exact ext_code (isNegative_ofUnpacked _ h) (code_ofUnpacked _ h)
  · have hu : x.toModel.unpack = .notANumber := by
      rw [unpack_toModel, unpacked, if_pos (by omega)]
    have hb := toBits_of_infinityCode_lt (Nat.lt_of_not_le h)
    have ht : (ofUnpacked x.toModel.unpack).toBits = x.toBits := by
      rw [hu]
      exact UInt64.toBitVec_inj.mp hb.symm
    refine ext_code ?_ ?_
    · rw [isNegative, isNegative, ht]
    · rw [code, code, ht]

end LinearProgram.Binary64
