import LinearProgram.Proofs.Binary64.Arithmetic

/-!
# `LinearProgram.Proofs.Binary64.Comparison`: what the tests on doubles say

The program asks of a double whether it equals zero, one or infinity,
whether it is below or above zero, and whether it is finite. Each test
is a statement on the sign and the code. Equality is that of numbers:
both zeros are equal, and what is not a number equals nothing
(`beq_iff`).
-/

set_option autoImplicit false

namespace LinearProgram.Binary64

open Float.Model Float.Model.UnpackedFloat

section
variable {m m' : Nat} {e e' : Int} {hm : 0 < m} {hm' : 0 < m'}

/-! Numbers of different kinds are compared by the sign of the larger
one, and finite numbers other than zero by exponent and mantissa. -/

theorem compare_infinity_infinity (n n' : Bool) :
    (UnpackedFloat.infinity (signOf n)).compare (.infinity (signOf n'))
      = some (if n = n' then .eq else if n then .lt else .gt) := by
  cases n <;> cases n' <;> rfl

theorem compare_infinity_zero (n : Bool) (s : Sign) :
    (UnpackedFloat.infinity (signOf n)).compare (.zero s) = some (if n then .lt else .gt) := by
  cases n <;> rfl

theorem compare_zero_infinity (s : Sign) (n : Bool) :
    (UnpackedFloat.zero s).compare (.infinity (signOf n)) = some (if n then .gt else .lt) := by
  cases n <;> rfl

theorem compare_zero_zero (s s' : Sign) :
    (UnpackedFloat.zero s).compare (.zero s') = some .eq := rfl

theorem compare_infinity_finite (n : Bool) (s : Sign) :
    (UnpackedFloat.infinity (signOf n)).compare (.finite s m e hm)
      = some (if n then .lt else .gt) := by
  cases n <;> rfl

theorem compare_zero_finite (s : Sign) (n : Bool) :
    (UnpackedFloat.zero s).compare (.finite (signOf n) m e hm)
      = some (if n then .gt else .lt) := by
  cases n <;> rfl

theorem compare_finite_infinity (n : Bool) (s : Sign) :
    (UnpackedFloat.finite s m e hm).compare (.infinity (signOf n))
      = some (if n then .gt else .lt) := by
  cases s <;> cases n <;> rfl

theorem compare_finite_zero (n : Bool) (s : Sign) :
    (UnpackedFloat.finite (signOf n) m e hm).compare (.zero s)
      = some (if n then .lt else .gt) := by
  cases n <;> rfl

theorem compare_finite_finite (n n' : Bool) :
    (UnpackedFloat.finite (signOf n) m e hm).compare (.finite (signOf n') m' e' hm')
      = some (match n, n' with
        | true, true => ((compare e e').then (compare m m')).swap
        | true, false => .lt
        | false, true => .gt
        | false, false => (compare e e').then (compare m m')) := by
  cases n <;> cases n' <;> rfl

end

/-- Comparing two doubles finds them equal if both are numbers, and
they are the same or both zero. -/
theorem compare_unpacked_eq_iff (n m : Bool) (c d : Nat) :
    (unpacked n c).compare (unpacked m d) = some .eq ↔
      c ≤ infinityCode ∧ d ≤ infinityCode ∧ (n = m ∧ c = d ∨ c = 0 ∧ d = 0) := by
  have hi : 0 < infinityCode := by decide
  rcases code_cases c with hc | hc | hc | ⟨hc0, hc⟩
  · rw [unpacked_notANumber n hc]
    constructor
    · intro h
      cases h
    · intro h
      exact absurd h.1 (Nat.not_le.mpr hc)
  · rcases code_cases d with hd | hd | hd | ⟨hd0, hd⟩
    · rw [hc, unpacked_infinity, unpacked_notANumber m hd]
      constructor
      · intro h
        cases n <;> cases h
      · intro h
        exact absurd h.2.1 (Nat.not_le.mpr hd)
    · rw [hc, hd, unpacked_infinity, unpacked_infinity, compare_infinity_infinity]
      cases n <;> cases m <;> simp <;> omega
    · rw [hc, hd, unpacked_infinity, unpacked_zero, compare_infinity_zero]
      cases n <;> simp <;> omega
    · rw [hc, unpacked_infinity, unpacked_finite m hd0 hd, compare_infinity_finite]
      cases n <;> simp <;> omega
  · rcases code_cases d with hd | hd | hd | ⟨hd0, hd⟩
    · rw [hc, unpacked_zero, unpacked_notANumber m hd]
      constructor
      · intro h
        cases h
      · intro h
        exact absurd h.2.1 (Nat.not_le.mpr hd)
    · rw [hc, hd, unpacked_zero, unpacked_infinity, compare_zero_infinity]
      cases m <;> simp <;> omega
    · rw [hc, hd, unpacked_zero, unpacked_zero, compare_zero_zero]
      simp
    · rw [hc, unpacked_zero, unpacked_finite m hd0 hd, compare_zero_finite]
      cases m <;> simp <;> omega
  · rcases code_cases d with hd | hd | hd | ⟨hd0, hd⟩
    · rw [unpacked_finite n hc0 hc, unpacked_notANumber m hd]
      constructor
      · intro h
        cases h
      · intro h
        exact absurd h.2.1 (Nat.not_le.mpr hd)
    · rw [hd, unpacked_finite n hc0 hc, unpacked_infinity, compare_finite_infinity]
      cases m <;> simp <;> omega
    · rw [hd, unpacked_finite n hc0 hc, unpacked_zero, compare_finite_zero]
      cases n <;> simp <;> omega
    · rw [unpacked_finite n hc0 hc, unpacked_finite m hd0 hd, compare_finite_finite]
      have hparts : (exponent c = exponent d ∧ mantissa c = mantissa d) ↔ c = d := by
        constructor
        · rintro ⟨he, hm⟩
          rw [← code_eq_of_parts c, ← code_eq_of_parts d, he, hm]
        · rintro rfl
          exact ⟨rfl, rfl⟩
      have hthen : ((compare (exponent c) (exponent d)).then (compare (mantissa c) (mantissa d)))
          = .eq ↔ c = d := by
        rw [Ordering.then_eq_eq, Int.compare_eq_eq, Nat.compare_eq_eq, hparts]
      have hswap : ((compare (exponent c) (exponent d)).then (compare (mantissa c) (mantissa d))).swap
          = .eq ↔ c = d := by
        rw [Ordering.swap_eq_eq, hthen]
      cases n <;> cases m <;> simp [hthen, hswap] <;> omega

theorem lt_iff (x y : Float) : x < y ↔ x.toModel.unpack.compare y.toModel.unpack = some .lt := by
  show Float.lt x y = true ↔ _
  rw [Float.lt, decide_eq_true_iff]
  show UnpackedFloat.lt x.toModel.unpack y.toModel.unpack = true ↔ _
  rw [UnpackedFloat.lt, beq_iff_eq]

/-- Equality of doubles as numbers. -/
theorem beq_iff {x y : Float} :
    (x == y) = true ↔ code x ≤ infinityCode ∧ code y ≤ infinityCode
      ∧ (x = y ∨ code x = 0 ∧ code y = 0) := by
  show (x.toModel.unpack.compare y.toModel.unpack == some .eq) = true ↔ _
  rw [beq_iff_eq, unpack_toModel, unpack_toModel, compare_unpacked_eq_iff]
  constructor
  · rintro ⟨hx, hy, ⟨hn, hc⟩ | h⟩
    · exact ⟨hx, hy, .inl (ext_code hn hc)⟩
    · exact ⟨hx, hy, .inr h⟩
  · rintro ⟨hx, hy, rfl | h⟩
    · exact ⟨hx, hy, .inl ⟨rfl, rfl⟩⟩
    · exact ⟨hx, hy, .inr h⟩

/-- A double equals zero if its code is zero. -/
theorem beq_zero_iff {x : Float} : (x == 0) = true ↔ code x = 0 := by
  rw [beq_iff, show code 0 = 0 from by decide]
  constructor
  · rintro ⟨_, _, rfl | h⟩
    · decide
    · exact h.1
  · intro h
    exact ⟨by omega, by decide, .inr ⟨h, rfl⟩⟩

/-- A double equals one only if it is one. -/
theorem beq_one_iff {x : Float} : (x == 1) = true ↔ x = 1 := by
  have hone : code 1 ≤ infinityCode ∧ code 1 ≠ 0 := by decide
  rw [beq_iff]
  constructor
  · rintro ⟨_, _, h | h⟩
    · exact h
    · exact absurd h.2 hone.2
  · rintro rfl
    exact ⟨hone.1, hone.1, .inl rfl⟩

/-- A double equals infinity only if it is infinity. -/
theorem beq_infinity_iff {x : Float} (negative : Bool) :
    (x == ofCode negative infinityCode) = true ↔ x = ofCode negative infinityCode := by
  have hi : infinityCode ≠ 0 := by decide
  rw [beq_iff, code_ofCode negative (Nat.le_refl _)]
  constructor
  · rintro ⟨_, _, h | h⟩
    · exact h
    · exact absurd h.2 hi
  · rintro rfl
    exact ⟨Nat.le_of_eq (code_ofCode negative (Nat.le_refl _)), Nat.le_refl _, .inl rfl⟩

theorem beq_self {x : Float} (h : code x ≤ infinityCode) : (x == x) = true :=
  beq_iff.mpr ⟨h, h, .inl rfl⟩

/-- A double is below zero if its sign is set and it is a number other
than zero. -/
theorem lt_zero_iff {x : Float} :
    x < 0 ↔ isNegative x = true ∧ code x ≠ 0 ∧ code x ≤ infinityCode := by
  rw [lt_iff, unpack_zero, unpack_toModel]
  generalize isNegative x = n
  rcases code_cases (code x) with h | h | h | ⟨h0, h⟩
  · rw [unpacked_notANumber n h]
    exact ⟨nofun, fun h' => absurd h'.2.2 (Nat.not_le.mpr h)⟩
  · have hi : infinityCode ≠ 0 := by decide
    rw [h, unpacked_infinity, compare_infinity_zero]
    cases n <;> simp [hi]
  · rw [h, unpacked_zero, compare_zero_zero]
    simp
  · rw [unpacked_finite n h0 h, compare_finite_zero]
    cases n <;> simp [h0]
    omega

/-- A double is above zero if its sign is not set and it is a number
other than zero. -/
theorem zero_lt_iff {x : Float} :
    0 < x ↔ isNegative x = false ∧ code x ≠ 0 ∧ code x ≤ infinityCode := by
  rw [lt_iff, unpack_zero, unpack_toModel]
  generalize isNegative x = n
  rcases code_cases (code x) with h | h | h | ⟨h0, h⟩
  · rw [unpacked_notANumber n h]
    exact ⟨nofun, fun h' => absurd h'.2.2 (Nat.not_le.mpr h)⟩
  · have hi : infinityCode ≠ 0 := by decide
    rw [h, unpacked_infinity, compare_zero_infinity]
    cases n <;> simp [hi]
  · rw [h, unpacked_zero, compare_zero_zero]
    simp
  · rw [unpacked_finite n h0 h, compare_zero_finite]
    cases n <;> simp [h0]
    omega

theorem isNaN_iff {x : Float} : x.isNaN = true ↔ infinityCode < code x := by
  show UnpackedFloat.isNaN x.toModel.unpack = true ↔ _
  rw [unpack_toModel]
  rcases code_cases (code x) with h | h | h | ⟨h0, h⟩
  · rw [unpacked_notANumber _ h]
    exact ⟨fun _ => h, fun _ => rfl⟩
  · rw [h, unpacked_infinity]
    exact ⟨nofun, fun h' => absurd h' (Nat.lt_irrefl _)⟩
  · rw [h, unpacked_zero]
    exact ⟨nofun, fun h' => absurd h' (by decide)⟩
  · rw [unpacked_finite _ h0 h]
    exact ⟨nofun, fun h' => absurd h' (by omega)⟩

theorem code_le_of_isNaN {x : Float} (h : x.isNaN = false) : code x ≤ infinityCode := by
  rw [← Nat.not_lt, ← isNaN_iff, h]
  exact Bool.false_ne_true

theorem isFinite_iff {x : Float} : x.isFinite = true ↔ code x < infinityCode := by
  show UnpackedFloat.isFinite x.toModel.unpack = true ↔ _
  rw [unpack_toModel]
  rcases code_cases (code x) with h | h | h | ⟨h0, h⟩
  · rw [unpacked_notANumber _ h]
    exact ⟨nofun, fun h' => absurd h' (by omega)⟩
  · rw [h, unpacked_infinity]
    exact ⟨nofun, fun h' => absurd h' (Nat.lt_irrefl _)⟩
  · rw [h, unpacked_zero]
    exact ⟨fun _ => by decide, fun _ => rfl⟩
  · rw [unpacked_finite _ h0 h]
    exact ⟨fun _ => h, fun _ => rfl⟩

/-- Infinity is all that lies between the finite numbers and what is not
a number. -/
theorem code_eq_infinityCode {x : Float} (h : x.isNaN = false) (hx : x.isFinite = false) :
    code x = infinityCode :=
  Nat.le_antisymm (code_le_of_isNaN h) <| Nat.not_lt.mp fun hlt =>
    Bool.false_ne_true (hx.symm.trans (isFinite_iff.mpr hlt))

theorem isNaN_of_isFinite {x : Float} (h : x.isFinite = true) : x.isNaN = false := by
  rw [← Bool.not_eq_true, isNaN_iff]
  exact Nat.not_lt.mpr (Nat.le_of_lt (isFinite_iff.mp h))

theorem isNaN_sub_of_isFinite {x y : Float} (hx : x.isFinite = true) (hy : y.isFinite = true) :
    (x - y).isNaN = false := by
  rw [← Bool.not_eq_true, isNaN_iff]
  exact Nat.not_lt.mpr (code_sub_le (isFinite_iff.mp hx) (isFinite_iff.mp hy))

theorem isFinite_neg {x : Float} (h : x.isFinite = true) : (-x).isFinite = true := by
  rw [isFinite_iff] at h ⊢
  rw [code_neg]
  exact h

theorem neg_injective {x y : Float} (h : -x = -y) : x = y := by
  rw [← neg_neg x, h, neg_neg]

end LinearProgram.Binary64
