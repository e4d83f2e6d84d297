import LinearProgram.Proofs.Binary64.Exact
import Mathlib.Data.EReal.Operations

/-!
# `LinearProgram.Proofs.Binary64.Extended`: doubles among the extended real numbers

A bound may be infinite, so the exact number that a double stands for is
an extended real number, `extended`. Of a finite double it is the `value`.

`extended_sub` is about a difference whose second part is finite. It is
exact if the first part is infinite, and otherwise if the difference of
the values is representable.
-/

set_option autoImplicit false

namespace LinearProgram.Binary64

open Float.Model

/-- The number that a double stands for, infinities included. What is not
a number counts as zero. -/
noncomputable def extended (x : Float) : EReal :=
  match x.toModel.unpack with
  | .infinity .positive => ⊤
  | .infinity .negative => ⊥
  | u => ((exactValue u : ℝ) : EReal)

variable {x y : Float}

theorem extended_of_isFinite (h : x.isFinite = true) : extended x = ((value x : ℝ) : EReal) := by
  rcases unpack_cases h with ⟨s, hu⟩ | ⟨s, m, e, hm, hu, -⟩
  · rw [extended, value, hu]
  · rw [extended, value, hu]

theorem IsExactly.extended_eq {q : ℚ} (h : IsExactly x q) : extended x = ((q : ℝ) : EReal) := by
  rw [extended_of_isFinite h.finite, h.value_eq]

theorem extended_zero : extended 0 = 0 := by
  rw [isExactly_zero.extended_eq, Rat.cast_zero, EReal.coe_zero]

theorem extended_eq_zero_iff {x : Float} (h : x.isFinite = true) :
    extended x = 0 ↔ (x == 0) = true := by
  rw [extended_of_isFinite h, EReal.coe_eq_zero, Rat.cast_eq_zero,
    value_eq_zero_iff h]

/-- A number that is not finite is unpacked as an infinity. -/
theorem unpack_of_not_isFinite (h : x.isNaN = false) (hx : x.isFinite = false) :
    ∃ s, x.toModel.unpack = .infinity s :=
  ⟨_, by rw [unpack_toModel, code_eq_infinityCode h hx, unpacked_infinity]⟩

/-- An infinity stays what it is if something finite is taken away. -/
theorem sub_of_not_isFinite (h : x.isNaN = false) (hx : x.isFinite = false)
    (hy : y.isFinite = true) : x - y = x := by
  obtain ⟨s, hs⟩ := unpack_of_not_isFinite h hx
  have hsub : UnpackedFloat.sub Format.binary64 x.toModel.unpack y.toModel.unpack
      = x.toModel.unpack := by
    -- The cases of the second number are those in which it is finite.
    rcases unpack_cases hy with ⟨t, hu⟩ | ⟨t, m, e, hm, hu, -⟩
    · rw [hs, hu]
      rfl
    · rw [hs, hu]
      rfl
  rw [sub_eq_ofUnpacked, hsub, ofUnpacked_unpack]

theorem isNaN_sub (h : x.isNaN = false) (hy : y.isFinite = true) : (x - y).isNaN = false := by
  cases hx : x.isFinite with
  | false => rwa [sub_of_not_isFinite h hx hy]
  | true => exact isNaN_sub_of_isFinite hx hy

theorem IsExactly.sub {p q : ℚ} (hx : IsExactly x p) (hy : IsExactly y q)
    (h : IsRepresentable (p - q)) : IsExactly (x - y) (p - q) := by
  have hopposite : p - q = p + -q := by ring
  rw [hopposite] at h ⊢
  rw [sub_eq_add_neg]
  exact hx.add hy.neg h

theorem extended_sub (h : x.isNaN = false) (hy : y.isFinite = true)
    (hexact : x.isFinite = true → IsRepresentable (value x - value y)) :
    extended (x - y) = extended x - extended y := by
  rw [extended_of_isFinite hy]
  cases hx : x.isFinite with
  | true =>
      rw [((isExactly_value hx).sub (isExactly_value hy) (hexact hx)).extended_eq,
        extended_of_isFinite hx, Rat.cast_sub, EReal.coe_sub]
  | false =>
      rw [sub_of_not_isFinite h hx hy]
      obtain ⟨s, hs⟩ := unpack_of_not_isFinite h hx
      rw [extended, hs]
      cases s with
      | positive => exact (EReal.top_sub_coe _).symm
      | negative => exact (EReal.bot_sub _).symm

end LinearProgram.Binary64
