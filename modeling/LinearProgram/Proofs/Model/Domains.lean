import LinearProgram.Proofs.Binary64.Order
import LinearProgram.Proofs.Binary64.Whole
import LinearProgram.Registry

/-!
# `LinearProgram.Proofs.Model.Domains`: which domains have values

The bounds of a variable are checked when it is created, and whether a
value lies in its domain is asked later, by a test of its own. The two
have to agree: bounds that pass should leave a value to choose.

* `check_eq_ok_iff` says when bounds suit a kind, and `admits_iff` when a
  value is admitted, in the order of ranks.
* `anchor` is a value between two bounds, one of them wherever there is a
  finite one. A real variable admits it, and so does an integer variable,
  since finite bounds are whole there (`admits_anchor`).
* The bounds of a binary variable are only kept between 0 and 1, and need
  not be whole. They can leave out both numbers (`LeavesOutBits`), and
  then no value is admitted, for there is no third whole number.

`accepted_domains` sums up, and `quarters_isEmpty` is a domain that is
accepted and empty.
-/

set_option autoImplicit false

namespace LinearProgram

open Binary64 (infinity infinityCode isWhole rank)

namespace Binary64

variable {x : Float}

/-- A number that is not finite is one of the infinities. -/
theorem eq_infinity_of_isFinite (h : x.isNaN = false) (hx : x.isFinite = false) :
    x = infinity ∨ x = -infinity := by
  have hcode := code_eq_infinityCode h hx
  cases hsign : isNegative x with
  | false => exact .inl (ext_code (hsign.trans (by decide)) (hcode.trans (by decide)))
  | true => exact .inr (ext_code (hsign.trans (by decide)) (hcode.trans (by decide)))

theorem rank_zero : rank 0 = 0 := by decide

theorem rank_one : rank 1 = code 1 := by decide

/-- Of a number between 0 and 1 the sign does not matter. -/
theorem code_lt_of_rank (h : rank 0 ≤ rank x) (hlt : rank x < rank 1) : code x < code 1 := by
  have hone : 0 < code 1 := by decide
  rw [rank_zero] at h
  rw [rank_one] at hlt
  cases hsign : isNegative x with
  | true =>
      rw [rank, if_pos hsign] at h
      omega
  | false =>
      rw [rank, if_neg (Bool.eq_false_iff.mp hsign)] at hlt
      omega

theorem rank_infinity : rank infinity = infinityCode := by decide

theorem rank_neg_infinity : rank (-infinity) = -(infinityCode : Int) := by decide

end Binary64

namespace Attributes

/-! ### The two tests -/

/-- When bounds enclose a number. -/
theorem isVoid_eq_false_iff {lower upper : Float} :
    isVoid lower upper = false ↔ lower.isNaN = false ∧ upper.isNaN = false
      ∧ lower ≠ infinity ∧ upper ≠ -infinity ∧ rank lower ≤ rank upper := by
  have hlower : (lower == infinity) = false ↔ lower ≠ infinity :=
    Bool.eq_false_iff.trans (not_congr (Binary64.beq_infinity_iff false))
  have hupper : (upper == -infinity) = false ↔ upper ≠ -infinity := by
    rw [show -infinity = Binary64.ofCode true infinityCode from by decide]
    exact Bool.eq_false_iff.trans (not_congr (Binary64.beq_infinity_iff true))
  simp only [isVoid, Bool.or_eq_false_iff, decide_eq_false_iff_not, hlower, hupper, and_assoc]
  refine and_congr_right fun hl => and_congr_right fun hu => and_congr_right fun _ =>
    and_congr_right fun _ => ?_
  rw [Binary64.lt_iff_rank hu hl, Int.not_lt]

/-- When bounds suit a kind. -/
theorem check_eq_ok_iff {a : Attributes} {name : String} :
    a.check name = .ok () ↔ isVoid a.lower a.upper = false
      ∧ (a.kind = .binary → ¬ a.lower < 0 ∧ ¬ 1 < a.upper)
      ∧ (a.kind = .integer → isFractional a.lower = false ∧ isFractional a.upper = false) := by
  unfold check
  cases isVoid a.lower a.upper with
  | true => exact ⟨fun h => (nomatch h), fun h => (nomatch h.1)⟩
  | false =>
      rw [if_neg Bool.false_ne_true]
      cases a.kind with
      | real => exact ⟨fun _ => ⟨rfl, nofun, nofun⟩, fun _ => rfl⟩
      | binary =>
          by_cases hlower : a.lower < 0
          · simp [hlower]
          · by_cases hupper : 1 < a.upper
            · simp [hupper]
            · simp [hlower, hupper]
      | integer =>
          cases isFractional a.lower with
          | true => simp
          | false =>
              cases isFractional a.upper with
              | true => simp
              | false => simp

/-- When a value is admitted. -/
theorem admits_iff {a : Attributes} (hlower : a.lower.isNaN = false)
    (hupper : a.upper.isNaN = false) {x : Float} :
    a.admits x = true ↔ x.isFinite = true ∧ rank a.lower ≤ rank x ∧ rank x ≤ rank a.upper
      ∧ (a.kind.isIntegral = true → isWhole x = true) := by
  simp only [admits, Bool.and_eq_true, decide_eq_true_eq, Bool.or_eq_true, Bool.not_eq_true',
    and_assoc]
  refine and_congr_right fun hx => ?_
  have hnumber := Binary64.isNaN_of_isFinite hx
  rw [Binary64.le_iff_rank hlower hnumber, Binary64.le_iff_rank hnumber hupper]
  cases a.kind.isIntegral <;> simp

/-! ### Real and integer variables -/

/-- A value between two bounds: one of them, if one is finite. -/
def anchor (lower upper : Float) : Float :=
  if lower.isFinite then lower else if upper.isFinite then upper else 0

section

variable {lower upper : Float}

theorem anchor_between (h : isVoid lower upper = false) :
    (anchor lower upper).isFinite = true ∧ rank lower ≤ rank (anchor lower upper)
      ∧ rank (anchor lower upper) ≤ rank upper := by
  obtain ⟨hlower, hupper, hlow, hhigh, hle⟩ := isVoid_eq_false_iff.mp h
  unfold anchor
  cases hl : lower.isFinite with
  | true => exact ⟨hl, Int.le_refl _, hle⟩
  | false =>
      have hleast : rank lower = -(infinityCode : Int) := by
        rw [(Binary64.eq_infinity_of_isFinite hlower hl).resolve_left hlow,
          Binary64.rank_neg_infinity]
      cases hu : upper.isFinite with
      | true => exact ⟨hu, hle, Int.le_refl _⟩
      | false =>
          have hgreatest : rank upper = infinityCode := by
            rw [(Binary64.eq_infinity_of_isFinite hupper hu).resolve_right hhigh,
              Binary64.rank_infinity]
          rw [hleast, hgreatest, if_neg Bool.false_ne_true, if_neg Bool.false_ne_true]
          decide

theorem isWhole_of_isFractional {bound : Float} (h : isFractional bound = false)
    (hfinite : bound.isFinite = true) : isWhole bound = true := by
  rw [isFractional, hfinite, Bool.true_and] at h
  simpa using h

theorem isWhole_anchor (hlower : isFractional lower = false) (hupper : isFractional upper = false) :
    isWhole (anchor lower upper) = true := by
  unfold anchor
  split
  · exact isWhole_of_isFractional hlower ‹_›
  · split
    · exact isWhole_of_isFractional hupper ‹_›
    · decide

end

section

variable {a : Attributes} {name : String}

theorem admits_anchor (h : a.check name = .ok ()) (hkind : a.kind ≠ .binary) :
    a.admits (anchor a.lower a.upper) = true := by
  obtain ⟨hvoid, -, hinteger⟩ := check_eq_ok_iff.mp h
  obtain ⟨hlower, hupper, -⟩ := isVoid_eq_false_iff.mp hvoid
  obtain ⟨hfinite, hge, hle⟩ := anchor_between hvoid
  refine (admits_iff hlower hupper).mpr ⟨hfinite, hge, hle, fun hintegral => ?_⟩
  cases hcase : a.kind with
  | binary => exact absurd hcase hkind
  | integer => exact isWhole_anchor (hinteger hcase).1 (hinteger hcase).2
  | real =>
      rw [hcase] at hintegral
      cases hintegral

/-! ### Binary variables -/

/-- Whether the bounds of a binary variable leave out both 0 and 1. -/
def LeavesOutBits (a : Attributes) : Prop := a.kind = .binary ∧ 0 < a.lower ∧ a.upper < 1

/-- The bounds of a binary variable lie between 0 and 1. -/
theorem binary_bounds (h : a.check name = .ok ()) (hkind : a.kind = .binary) :
    a.lower.isNaN = false ∧ a.upper.isNaN = false ∧ rank 0 ≤ rank a.lower
      ∧ rank a.lower ≤ rank a.upper ∧ rank a.upper ≤ rank 1 := by
  obtain ⟨hvoid, hbinary, -⟩ := check_eq_ok_iff.mp h
  obtain ⟨hlower, hupper, -, -, hle⟩ := isVoid_eq_false_iff.mp hvoid
  obtain ⟨hzero, hone⟩ := hbinary hkind
  rw [Binary64.lt_iff_rank hlower (by decide), Int.not_lt] at hzero
  rw [Binary64.lt_iff_rank (by decide) hupper, Int.not_lt] at hone
  exact ⟨hlower, hupper, hzero, hle, hone⟩

/-- Of the whole numbers between 0 and 1 one is enough. -/
theorem exists_admits_iff_bits (h : a.check name = .ok ()) (hkind : a.kind = .binary) :
    (∃ x, a.admits x = true) ↔ a.admits 0 = true ∨ a.admits 1 = true := by
  obtain ⟨hlower, hupper, hzero, hle, hone⟩ := binary_bounds h hkind
  constructor
  · rintro ⟨x, hx⟩
    obtain ⟨hfinite, hge, hle', hwhole⟩ := (admits_iff hlower hupper).mp hx
    rw [hkind] at hwhole
    have hwhole := hwhole rfl
    -- A value that is not 1 is below it, and is zero because it is whole.
    by_cases hbelow : rank x < rank 1
    · have hcode := Binary64.code_eq_zero_of_isWhole hwhole
        (Binary64.code_lt_of_rank (Int.le_trans hzero hge) hbelow)
      have hrank : rank x = rank 0 := by
        rw [Binary64.rank_zero, rank, hcode]
        split <;> rfl
      rw [hrank] at hge hle'
      exact .inl ((admits_iff hlower hupper).mpr ⟨by decide, hge, hle', fun _ => by decide⟩)
    · refine .inr ((admits_iff hlower hupper).mpr ⟨by decide, by omega, by omega, fun _ => ?_⟩)
      decide
  · rintro (hx | hx)
    · exact ⟨0, hx⟩
    · exact ⟨1, hx⟩

/-- The accepted domains without a value are those of binary variables
that leave out both 0 and 1. -/
theorem exists_admits_iff (h : a.check name = .ok ()) :
    (∃ x, a.admits x = true) ↔ ¬ a.LeavesOutBits := by
  by_cases hkind : a.kind = .binary
  · obtain ⟨hlower, hupper, hzero, hle, hone⟩ := binary_bounds h hkind
    have hbits : a.LeavesOutBits ↔ rank 0 < rank a.lower ∧ rank a.upper < rank 1 := by
      rw [LeavesOutBits, Binary64.lt_iff_rank (by decide) hlower,
        Binary64.lt_iff_rank hupper (by decide), and_iff_right hkind]
    have hwhole : isWhole 0 = true ∧ isWhole 1 = true := by decide
    rw [exists_admits_iff_bits h hkind, hbits, admits_iff hlower hupper, admits_iff hlower hupper]
    constructor
    · rintro (⟨-, hge, -⟩ | ⟨-, -, hle', -⟩) <;> omega
    · intro hnot
      by_cases hle' : rank a.lower ≤ rank 0
      · exact .inl ⟨by decide, hle', by omega, fun _ => hwhole.1⟩
      · exact .inr ⟨by decide, by omega, by omega, fun _ => hwhole.2⟩
  · exact ⟨fun _ hbits => hkind hbits.1, fun _ => ⟨_, admits_anchor h hkind⟩⟩

end

end Attributes

/-! ### Variables -/

/-- A variable is created with the attributes that it is given. -/
theorem attributes_created (registry : Registry) (name : String) (a : Attributes) :
    (registry.declare name a).2.attributes (registry.declare name a).1 = a := by
  rw [Registry.attributes_declare]
  exact if_pos rfl

theorem validate_created (registry : Registry) (name : String) (a : Attributes) :
    (registry.declare name a).2.validate (registry.declare name a).1 = a.check name := by
  rw [Registry.validate, attributes_created]
  rfl

/-- A variable whose bounds pass has a value to take, unless it is binary
and its bounds leave out both 0 and 1; a binary variable with a value has
one of these two. A variable is created exactly if its bounds pass. -/
theorem accepted_domains (registry : Registry) :
    (∀ v, registry.validate v = .ok () →
        ((∃ x, registry.admits v x = true) ↔ ¬ (registry.attributes v).LeavesOutBits)
          ∧ ((registry.attributes v).kind = .binary →
            ((∃ x, registry.admits v x = true)
              ↔ registry.admits v 0 = true ∨ registry.admits v 1 = true)))
      ∧ ∀ name kind lower upper created,
        registry.create name kind lower upper = .ok created
          ↔ created = registry.declare name (.bounded kind lower upper)
            ∧ created.2.validate created.1 = .ok () := by
  refine ⟨fun v h => ⟨Attributes.exists_admits_iff h, Attributes.exists_admits_iff_bits h⟩, ?_⟩
  intro name kind lower upper created
  unfold Registry.create
  constructor
  · intro h
    split at h
    · rename_i hcheck
      cases h
      exact ⟨rfl, (validate_created ..).trans hcheck⟩
    · cases h
  · rintro ⟨rfl, h⟩
    rw [validate_created] at h
    rw [h]

/-- A binary variable that is at least a half. -/
def upperHalf : Variable × Registry := (∅ : Registry).declare "b" (.bounded .binary 0.5 1)

theorem upperHalf_admits_one :
    upperHalf.2.validate upperHalf.1 = .ok () ∧ upperHalf.2.admits upperHalf.1 0 = false
      ∧ upperHalf.2.admits upperHalf.1 1 = true := by
  have hvalid : upperHalf.2.validate upperHalf.1 = .ok () :=
    (validate_created ..).trans <| Attributes.check_eq_ok_iff.mpr
      ⟨by decide +kernel, fun _ => ⟨by decide +kernel, by decide +kernel⟩, nofun⟩
  have hkind : (upperHalf.2.attributes upperHalf.1).kind = .binary := by decide +kernel
  have hupper : ¬ (upperHalf.2.attributes upperHalf.1).upper < 1 := by decide +kernel
  have hzero : upperHalf.2.admits upperHalf.1 0 = false := by decide +kernel
  obtain ⟨hvalue, hbits⟩ := (accepted_domains upperHalf.2).1 upperHalf.1 hvalid
  rcases (hbits hkind).mp (hvalue.mpr fun hout => hupper hout.2.2) with h | h
  · exact absurd (hzero.symm.trans h) Bool.false_ne_true
  · exact ⟨hvalid, hzero, h⟩

/-- A binary variable between a quarter and three quarters is created, and
admits nothing. -/
theorem quarters_isEmpty :
    ∃ v registry, (∅ : Registry).create "b" .binary 0.25 0.75 = .ok (v, registry)
      ∧ registry.validate v = .ok () ∧ ∀ x, registry.admits v x = false := by
  have hvalid : (Attributes.bounded .binary 0.25 0.75).check "b" = .ok () :=
    Attributes.check_eq_ok_iff.mpr
      ⟨by decide +kernel, fun _ => ⟨by decide +kernel, by decide +kernel⟩, nofun⟩
  have hout : (Attributes.bounded .binary 0.25 0.75).LeavesOutBits :=
    ⟨rfl, by decide +kernel, by decide +kernel⟩
  have hcreate : (∅ : Registry).create "b" .binary 0.25 0.75
      = .ok ((∅ : Registry).declare "b" (.bounded .binary 0.25 0.75)) := by
    rw [Registry.create, hvalid]
  refine ⟨((∅ : Registry).declare "b" (.bounded .binary 0.25 0.75)).1,
    ((∅ : Registry).declare "b" (.bounded .binary 0.25 0.75)).2, hcreate,
    (validate_created ..).trans hvalid, fun x => ?_⟩
  rw [Registry.admits, attributes_created]
  exact Bool.eq_false_iff.mpr fun hx =>
    (Attributes.exists_admits_iff hvalid).mp ⟨x, hx⟩ hout

end LinearProgram
