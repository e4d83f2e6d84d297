import LinearProgram.Operand
import LinearProgram.Proofs.Binary64.Exact
import LinearProgram.Proofs.Model.Copies
import Mathlib

/-!
# `LinearProgram.Proofs.Model.LinearForms`: the arithmetic of terms is linear algebra

A term stands for a linear form over the rational numbers
(`Term.form`): its coefficients and its constant are doubles, and
doubles have values. Forms are a vector space, and their evaluation is
linear; terms only follow them as far as no number is rounded.

* `LinearForm.IsRepresentable` says that no number of a form is, and
  `Term.Represents` that a term has exactly the numbers of a form.
* `Represents.add`, `Represents.sub`, `Represents.scale`: the term of a
  sum represents the sum of the forms, if that is representable, and
  likewise for differences and multiples. All of them merge or change
  the summands one by one, and drop those that become zero.
* `Represents.beq`: two terms of one form are equal. No term stores a
  zero, so the form determines which coefficients it stores.
* `EvaluatesExactly` says that no number is rounded on the way through
  an evaluation. It then gives the value of the form
  (`EvaluatesExactly.evaluate`).

Sums over lists of doubles and over lists of terms are the same
argument (`foldl_add_exact`). Integers are not rounded as long as there
is room for all of them at once (`HasIntegers`).
-/

set_option autoImplicit false

namespace LinearProgram

open Binary64 (value IsExactly)

/-! ### Forms -/

/-- Numbers for finitely many variables, and a constant. -/
abbrev LinearForm := (Variable →₀ ℚ) × ℚ

namespace LinearForm

/-- The form that is a number. -/
def ofConstant (q : ℚ) : LinearForm := (0, q)

/-- Whether all numbers of a form are values of doubles. -/
def IsRepresentable (φ : LinearForm) : Prop :=
  (∀ v, Binary64.IsRepresentable (φ.1 v)) ∧ Binary64.IsRepresentable φ.2

theorem isRepresentable_zero : (0 : LinearForm).IsRepresentable :=
  ⟨fun _ => Binary64.isRepresentable_zero, Binary64.isRepresentable_zero⟩

/-- The value of a form where the variables have the given values. -/
noncomputable def eval (x : Variable → ℚ) : LinearForm →ₗ[ℚ] ℚ :=
  (Finsupp.linearCombination ℚ x).coprod LinearMap.id

/-- Whether the numbers of a form are integers that are not too large. -/
def IsIntegerUpTo (n : Nat) (φ : LinearForm) : Prop :=
  (∀ v, Binary64.IsIntegerUpTo n (φ.1 v)) ∧ Binary64.IsIntegerUpTo n φ.2

section

variable {m n : Nat} {φ ψ : LinearForm}

theorem isIntegerUpTo_zero (n : Nat) : (0 : LinearForm).IsIntegerUpTo n :=
  ⟨fun _ => Binary64.isIntegerUpTo_zero n, Binary64.isIntegerUpTo_zero n⟩

theorem IsIntegerUpTo.isRepresentable (h : φ.IsIntegerUpTo n) (hn : n < 2 ^ 53) :
    φ.IsRepresentable :=
  ⟨fun v => (h.1 v).isRepresentable hn, h.2.isRepresentable hn⟩

theorem IsIntegerUpTo.add (hφ : φ.IsIntegerUpTo m) (hψ : ψ.IsIntegerUpTo n) :
    (φ + ψ).IsIntegerUpTo (m + n) :=
  ⟨fun v => (hφ.1 v).add (hψ.1 v), hφ.2.add hψ.2⟩

theorem IsIntegerUpTo.sub (hφ : φ.IsIntegerUpTo m) (hψ : ψ.IsIntegerUpTo n) :
    (φ - ψ).IsIntegerUpTo (m + n) := by
  rw [sub_eq_add_neg]
  exact hφ.add ⟨fun v => (hψ.1 v).neg, hψ.2.neg⟩

theorem IsIntegerUpTo.smul {κ : ℚ} (hφ : φ.IsIntegerUpTo n) (hκ : Binary64.IsIntegerUpTo m κ) :
    (κ • φ).IsIntegerUpTo (m * n) :=
  ⟨fun v => hκ.mul (hφ.1 v), hκ.mul hφ.2⟩

end

end LinearForm

/-! ### Sums of lists -/

/-- A sum from left to right is exact if the sum of two is, as long as
it is representable. -/
theorem foldl_add_exact {ι X A : Type} [Add X] [AddMonoid A] {R : X → A → Prop} {P : A → Prop}
    (hadd : ∀ {x y p q}, R x p → R y q → P (p + q) → R (x + y) (p + q)) {f : ι → X} {g : ι → A}
    {l : List ι} (hl : ∀ i ∈ l, R (f i) (g i)) {x : X} {p : A} (hx : R x p)
    (hsums : ∀ l', l' <+: l → P (p + (l'.map g).sum)) :
    R (l.foldl (fun s i => s + f i) x) (p + (l.map g).sum) := by
  -- Every prefix of the rest is one of the whole, behind what has been added already.
  induction l generalizing x p with
  | nil =>
      rw [List.map_nil, List.sum_nil, add_zero]
      exact hx
  | cons i l ih =>
      have hstep : R (x + f i) (p + g i) := by
        refine hadd hx (hl i (List.mem_cons_self ..)) ?_
        have hone := hsums [i] ⟨l, rfl⟩
        rwa [List.map_singleton, List.sum_singleton] at hone
      rw [List.map_cons, List.sum_cons, ← add_assoc]
      refine ih (fun j hj => hl j (List.mem_cons_of_mem _ hj)) hstep fun l' hl' => ?_
      have hsum := hsums (i :: l') (List.cons_prefix_cons.mpr ⟨rfl, hl'⟩)
      rwa [List.map_cons, List.sum_cons, ← add_assoc] at hsum

/-- Bounds add up: a sum of numbers that are bounded by one number is
bounded by as many times this number. -/
theorem sum_map_bounded {ι A : Type} [AddMonoid A] {P : Nat → A → Prop} (hzero : P 0 0)
    (hadd : ∀ {m n p q}, P m p → P n q → P (m + n) (p + q)) {f : ι → A} {l : List ι} {n : Nat}
    (h : ∀ i ∈ l, P n (f i)) : P (l.length * n) (l.map f).sum := by
  induction l with
  | nil =>
      rw [List.length_nil, Nat.zero_mul]
      exact hzero
  | cons i l ih =>
      rw [List.length_cons, Nat.add_mul, Nat.one_mul, Nat.add_comm, List.map_cons, List.sum_cons]
      exact hadd (h i (List.mem_cons_self ..)) (ih fun j hj => h j (List.mem_cons_of_mem _ hj))

namespace Term

variable {t u : Term Float} {φ ψ : LinearForm} {v : Variable} {c d k : Float} {p q κ : ℚ}

/-! ### Terms and their forms -/

theorem coefficient_of_get? (h : t.coefficients.get? v = some c) : t.coefficient v = c := by
  rw [Term.coefficient, h, Option.getD_some]

theorem coefficient_of_get?_eq_none (h : t.coefficients.get? v = none) :
    t.coefficient v = (0 : Float) := by
  rw [Term.coefficient, h]
  rfl

theorem mem_occurring_of_value_ne_zero (t : Term Float) (v : Variable)
    (h : value (t.coefficient v) ≠ 0) : v ∈ t.occurring.toFinset := by
  rw [List.mem_toFinset, mem_occurring]
  cases hget : t.coefficients.get? v with
  | none =>
      rw [coefficient_of_get?_eq_none hget] at h
      exact absurd Binary64.value_zero h
  | some c => exact ⟨c, rfl⟩

/-- The form that a term stands for. -/
noncomputable def form (t : Term Float) : LinearForm :=
  (Finsupp.onFinset t.occurring.toFinset (fun v => value (t.coefficient v))
    t.mem_occurring_of_value_ne_zero, value t.constant)

/-- Whether the numbers of a term are exactly those of a form. -/
structure Represents (t : Term Float) (φ : LinearForm) : Prop where
  coefficient (v : Variable) : IsExactly (t.coefficient v) (φ.1 v)
  constant : IsExactly t.constant φ.2

theorem represents_form (h : t.IsFinite) : t.Represents t.form := by
  constructor
  · intro v
    show IsExactly (t.coefficient v) (value (t.coefficient v))
    refine Binary64.isExactly_value ?_
    cases hget : t.coefficients.get? v with
    | none =>
        rw [coefficient_of_get?_eq_none hget]
        exact Binary64.isExactly_zero.finite
    | some c =>
        rw [coefficient_of_get? hget]
        exact h.1 (v, c) (OrderedMap.mem_toList_iff.mpr hget)
  · exact Binary64.isExactly_value h.2

theorem Represents.form_eq (h : t.Represents φ) : t.form = φ :=
  Prod.ext (Finsupp.ext fun v => (h.coefficient v).value_eq) h.constant.value_eq

theorem Represents.isFinite (h : t.Represents φ) : t.IsFinite := by
  refine ⟨fun p hp => ?_, h.constant.finite⟩
  rw [← coefficient_of_get? (OrderedMap.mem_toList_iff.mp hp)]
  exact (h.coefficient p.1).finite

/-- A variable that does not occur has the coefficient zero. -/
theorem Represents.eq_zero (h : t.Represents φ) (hget : t.coefficients.get? v = none) :
    φ.1 v = 0 := by
  rw [← (h.coefficient v).value_eq, coefficient_of_get?_eq_none hget, Binary64.value_zero]

theorem represents_ofConstant (h : IsExactly k κ) :
    (ofConstant k).Represents (LinearForm.ofConstant κ) :=
  ⟨fun _ => Binary64.isExactly_zero, h⟩

/-! ### Equality -/

/-- A coefficient that is stored is exact, and so is one that is not
because it is zero. -/
theorem isExactly_keep (h : IsExactly c q) : IsExactly ((keep c).getD 0) q := by
  unfold Term.keep
  split
  · rename_i h0
    rw [← h.value_eq, (Binary64.value_eq_zero_iff h.finite).mpr h0]
    exact Binary64.isExactly_zero
  · exact h

/-- What is stored depends on the value alone. -/
theorem keep_eq_of_isExactly (hc : IsExactly c q) (hd : IsExactly d q) : keep c = keep d := by
  have hvalue : value c = value d := hc.value_eq.trans hd.value_eq.symm
  by_cases h0 : value c = 0
  · rw [keep, keep, if_pos ((Binary64.value_eq_zero_iff hc.finite).mp h0),
      if_pos ((Binary64.value_eq_zero_iff hd.finite).mp (hvalue ▸ h0))]
  · rw [Binary64.eq_of_value hc.finite hd.finite hvalue h0]

/-- A term stores its coefficients other than zero. -/
theorem get?_eq_keep (t : Term Float) (v : Variable) :
    t.coefficients.get? v = keep (t.coefficient v) := by
  cases hget : t.coefficients.get? v with
  | none =>
      rw [coefficient_of_get?_eq_none hget]
      rfl
  | some c => rw [coefficient_of_get? hget, keep_of_nonzero (t.nonzero v c hget)]

theorem beq_entries {l : List (Variable × Float)} (h : ∀ p ∈ l, p.2.isFinite = true) :
    (l == l) = true := by
  induction l with
  | nil => rfl
  | cons p l ih =>
      obtain ⟨v, c⟩ := p
      have hc := (Binary64.isExactly_value (h _ (List.mem_cons_self ..))).beq
        (Binary64.isExactly_value (h _ (List.mem_cons_self ..)))
      show ((v == v && c == c) && l == l) = true
      rw [ih fun q hq => h q (List.mem_cons_of_mem _ hq), beq_self_eq_true, hc]
      rfl

/-- Terms that stand for the same form are equal. -/
theorem Represents.beq (ht : t.Represents φ) (hu : u.Represents φ) : (t == u) = true := by
  have hcoefficients : t.coefficients = u.coefficients := by
    refine OrderedMap.ext_get? fun v => ?_
    rw [get?_eq_keep, get?_eq_keep,
      keep_eq_of_isExactly (ht.coefficient v) (hu.coefficient v)]
  refine Bool.and_eq_true_iff.mpr ⟨?_, ht.constant.beq hu.constant⟩
  rw [hcoefficients]
  exact beq_entries hu.isFinite.1

/-! ### Operations -/

/-- A summand that is added is added to the coefficient. -/
theorem coefficient_addTerm (h : IsExactly (t.coefficient v) p) (hc : IsExactly c q)
    (hsum : Binary64.IsRepresentable (p + q)) :
    IsExactly ((t.addTerm v c).coefficient v) (p + q) := by
  rw [Term.coefficient, get?_addTerm, if_pos rfl]
  cases hget : t.coefficients.get? v with
  | none =>
      rw [Term.coefficient, hget] at h
      rw [← h.value_eq, Option.getD_none, Binary64.value_zero, zero_add]
      exact isExactly_keep hc
  | some d =>
      rw [coefficient_of_get? hget] at h
      dsimp only
      split
      · rename_i h0
        rw [← hc.value_eq, (Binary64.value_eq_zero_iff hc.finite).mpr h0, add_zero]
        exact h
      · exact isExactly_keep (h.add hc hsum)

/-- Another term is taken in with its sign. -/
theorem Represents.absorb {sign : Float} {σ : ℚ}
    (hsign : ∀ {c q}, IsExactly c q → IsExactly (sign * c) (σ * q)) (ht : t.Represents φ)
    (hu : u.Represents ψ) (hsum : (φ + σ • ψ).IsRepresentable) :
    (t.absorb u sign).Represents (φ + σ • ψ) := by
  refine ⟨fun v => ?_, ?_⟩
  · show IsExactly _ (φ.1 v + σ * ψ.1 v)
    rw [Term.coefficient, get?_absorb]
    cases hget : u.coefficients.get? v with
    | none =>
        -- Nothing is added, which is the same as adding a zero.
        rw [hu.eq_zero hget, mul_zero, add_zero]
        exact ht.coefficient v
    | some c =>
        have hc := hu.coefficient v
        rw [coefficient_of_get? hget] at hc
        exact coefficient_addTerm (ht.coefficient v) (hsign hc) (hsum.1 v)
  · rw [Term.absorb, LpText.constant_foldl_addTerm]
    exact ht.constant.add (hsign hu.constant) hsum.2

theorem Represents.add (ht : t.Represents φ) (hu : u.Represents ψ)
    (hsum : (φ + ψ).IsRepresentable) : (t + u).Represents (φ + ψ) := by
  rw [← one_smul ℚ ψ] at hsum ⊢
  refine ht.absorb (fun {c q} hc => ?_) hu hsum
  rw [one_mul]
  exact (Binary64.one_mul c).symm ▸ hc

theorem Represents.sub (ht : t.Represents φ) (hu : u.Represents ψ)
    (hsum : (φ - ψ).IsRepresentable) : (t - u).Represents (φ - ψ) := by
  rw [sub_eq_add_neg, ← neg_one_smul ℚ ψ] at hsum ⊢
  refine ht.absorb (fun {c q} hc => ?_) hu hsum
  rw [neg_one_mul]
  exact (Binary64.neg_one_mul c).symm ▸ hc.neg

theorem Represents.scale (h : t.Represents φ) (hk : IsExactly k κ)
    (hproduct : (κ • φ).IsRepresentable) : (t.scale k).Represents (κ • φ) := by
  refine ⟨fun v => ?_, ?_⟩
  · have hv : Binary64.IsRepresentable (κ * φ.1 v) := hproduct.1 v
    show IsExactly _ (κ * φ.1 v)
    rw [Term.coefficient, get?_scale]
    cases hget : t.coefficients.get? v with
    | none =>
        rw [h.eq_zero hget, mul_zero]
        exact Binary64.isExactly_zero
    | some c =>
        have hc := h.coefficient v
        rw [coefficient_of_get? hget] at hc
        rw [mul_comm] at hv ⊢
        exact isExactly_keep (hc.mul hk hv)
  · have hv : Binary64.IsRepresentable (κ * φ.2) := hproduct.2
    show IsExactly (t.constant * k) (κ * φ.2)
    rw [mul_comm] at hv ⊢
    exact h.constant.mul hk hv

theorem Represents.isRepresentable (h : t.Represents φ) : φ.IsRepresentable :=
  ⟨fun v => ⟨_, h.coefficient v⟩, _, h.constant⟩

theorem Represents.neg (h : t.Represents φ) : (-t).Represents (-φ) := by
  have hopposite : (-φ).IsRepresentable :=
    ⟨fun v => (h.isRepresentable.1 v).neg, h.isRepresentable.2.neg⟩
  rw [← neg_one_smul ℚ φ] at hopposite ⊢
  exact h.scale Binary64.isExactly_one.neg hopposite

/-- A list of terms is added from left to right. -/
theorem represents_sum {ts : List (Term Float)} (h : ∀ t ∈ ts, t.IsFinite)
    (hsums : ∀ l, l <+: ts → (l.map form).sum.IsRepresentable) :
    (sum ts).Represents (ts.map form).sum := by
  rw [← zero_add (ts.map form).sum]
  refine foldl_add_exact Represents.add (fun t ht => represents_form (h t ht))
    (represents_ofConstant Binary64.isExactly_zero) fun l hl => ?_
  rw [zero_add]
  exact hsums l hl

/-! ### Evaluation -/

/-- What stands for the value of a variable, zero where it has none. -/
def valueAt (s : Valuation Float) (v : Variable) : ℚ := value ((s.get? v).getD 0)

/-- What stands for the value of a summand. -/
def product (s : Valuation Float) (p : Variable × Float) : ℚ := value p.2 * valueAt s p.1

/-- Whether an evaluation rounds nothing: the values of the variables
are finite, and every product and every sum on the way is the value of a
double. -/
structure EvaluatesExactly (t : Term Float) (s : Valuation Float) : Prop where
  values : ∀ p ∈ t.coefficients.toList, ((s.get? p.1).getD 0 : Float).isFinite = true
  products : ∀ p ∈ t.coefficients.toList, Binary64.IsRepresentable (product s p)
  sums : ∀ l, l <+: t.coefficients.toList → Binary64.IsRepresentable (l.map (product s)).sum
  total : Binary64.IsRepresentable
    ((t.coefficients.toList.map (product s)).sum + value t.constant)

/-- The form of a term is evaluated summand by summand. -/
theorem eval_form (t : Term Float) (s : Valuation Float) :
    LinearForm.eval (valueAt s) t.form
      = (t.coefficients.toList.map (product s)).sum + value t.constant := by
  have hsum : Finsupp.linearCombination ℚ (valueAt s) t.form.1
      = (t.occurring.map fun v => value (t.coefficient v) * valueAt s v).sum := by
    rw [← List.sum_toFinset _ (nodup_occurring t), Finsupp.linearCombination_apply]
    exact Finsupp.onFinset_sum t.mem_occurring_of_value_ne_zero fun v => zero_smul ℚ _
  show Finsupp.linearCombination ℚ (valueAt s) t.form.1 + value t.constant = _
  rw [hsum, occurring, OrderedMap.keys, List.map_map]
  refine congrArg (fun l : List ℚ => l.sum + value t.constant) (List.map_congr_left fun p hp => ?_)
  show value (t.coefficient p.1) * valueAt s p.1 = product s p
  rw [coefficient_of_get? (OrderedMap.mem_toList_iff.mp hp), product]

/-- What is evaluated without rounding is the value of the form. -/
theorem EvaluatesExactly.evaluate {s : Valuation Float} (h : t.EvaluatesExactly s)
    (ht : t.IsFinite) : IsExactly (t.evaluate s) (LinearForm.eval (valueAt s) t.form) := by
  -- The sum starts with negative zero, which is worth no more than zero.
  have hzero : IsExactly (-0) 0 := by
    have hneg := Binary64.isExactly_zero.neg
    rwa [neg_zero] at hneg
  have hsum : IsExactly
      (t.coefficients.toList.foldl (fun r p => r + p.2 * (s.get? p.1).getD 0) (-0))
      (t.coefficients.toList.map (product s)).sum := by
    rw [← zero_add (List.sum _)]
    refine foldl_add_exact IsExactly.add (fun p hp => ?_) hzero fun l hl => ?_
    · exact (Binary64.isExactly_value (ht.1 p hp)).mul (Binary64.isExactly_value (h.values p hp))
        (h.products p hp)
    · rw [zero_add]
      exact h.sums l hl
  rw [eval_form]
  exact hsum.add (Binary64.isExactly_value ht.2) h.total

/-! ### Integers -/

/-- Whether a term and the values of its variables are integers, with
room for as many products as there are variables. -/
def HasIntegers (t : Term Float) (s : Valuation Float) (m n : Nat) : Prop :=
  (∀ p ∈ t.coefficients.toList, Binary64.IsIntegerUpTo m (value p.2)
      ∧ ((s.get? p.1).getD 0 : Float).isFinite = true
      ∧ Binary64.IsIntegerUpTo n (valueAt s p.1))
    ∧ Binary64.IsIntegerUpTo m (value t.constant)
    ∧ t.size * (m * n) + m < 2 ^ 53

instance (t : Term Float) (s : Valuation Float) (m n : Nat) : Decidable (t.HasIntegers s m n) :=
  inferInstanceAs (Decidable (_ ∧ _ ∧ _))

section

variable {s : Valuation Float} {m n : Nat}

theorem HasIntegers.form (h : t.HasIntegers s m n) : t.form.IsIntegerUpTo m := by
  refine ⟨fun v => ?_, h.2.1⟩
  show Binary64.IsIntegerUpTo m (value (t.coefficient v))
  cases hget : t.coefficients.get? v with
  | none =>
      rw [coefficient_of_get?_eq_none hget, Binary64.value_zero]
      exact Binary64.isIntegerUpTo_zero m
  | some c =>
      rw [coefficient_of_get? hget]
      exact (h.1 (v, c) (OrderedMap.mem_toList_iff.mpr hget)).1

theorem HasIntegers.sum (h : t.HasIntegers s m n) {l : List (Variable × Float)}
    (hl : l <+: t.coefficients.toList) :
    Binary64.IsIntegerUpTo (t.size * (m * n)) (l.map (product s)).sum := by
  have hsum : Binary64.IsIntegerUpTo (l.length * (m * n)) (l.map (product s)).sum := by
    refine sum_map_bounded (Binary64.isIntegerUpTo_zero 0) Binary64.IsIntegerUpTo.add
      fun p hp => ?_
    obtain ⟨hcoefficient, -, hvalue⟩ := h.1 p (hl.subset hp)
    exact hcoefficient.mul hvalue
  exact hsum.mono (Nat.mul_le_mul_right _ hl.length_le)

/-- Integers are evaluated without rounding. -/
theorem HasIntegers.evaluatesExactly (h : t.HasIntegers s m n) : t.EvaluatesExactly s := by
  have hroom := h.2.2
  refine ⟨fun p hp => (h.1 p hp).2.1, fun p hp => ?_,
    fun l hl => (h.sum hl).isRepresentable (by omega),
    ((h.sum (List.prefix_refl _)).add h.2.1).isRepresentable hroom⟩
  obtain ⟨hcoefficient, -, hvalue⟩ := h.1 p hp
  have hone : 1 * (m * n) ≤ t.size * (m * n) :=
    Nat.mul_le_mul_right _ (List.length_pos_of_mem hp)
  exact (hcoefficient.mul hvalue).isRepresentable (by omega)

/-- Integers are summed up without rounding, if there is room. -/
theorem isRepresentable_prefix_sum {ts : List (Term Float)}
    (h : ∀ t ∈ ts, t.form.IsIntegerUpTo n) (hroom : ts.length * n < 2 ^ 53)
    {l : List (Term Float)} (hl : l <+: ts) : (l.map form).sum.IsRepresentable := by
  have hsum : (l.map form).sum.IsIntegerUpTo (l.length * n) :=
    sum_map_bounded (LinearForm.isIntegerUpTo_zero 0) LinearForm.IsIntegerUpTo.add
      fun t ht => h t (hl.subset ht)
  exact hsum.isRepresentable (Nat.lt_of_le_of_lt (Nat.mul_le_mul_right n hl.length_le) hroom)

end

/-! ### The arithmetic of terms -/

/-- Terms are added, subtracted, multiplied, summed up and evaluated as
linear forms are, as long as no number on the way is rounded. What is
added can be taken away again, what is taken from itself leaves zero, and
a number from which a term is taken may as well be a term. -/
theorem arithmetic_isLinear (a b : Term Float) (k : Float) (ts : List (Term Float))
    (s : Valuation Float) (ha : a.IsFinite) (hb : b.IsFinite) (hk : k.isFinite = true)
    (hts : ∀ t ∈ ts, t.IsFinite) :
    ((a.form + b.form).IsRepresentable →
        (∀ v, IsExactly ((a + b).coefficient v) (value (a.coefficient v) + value (b.coefficient v)))
          ∧ IsExactly (a + b).constant (value a.constant + value b.constant)
          ∧ (a + b - b == a) = true
          ∧ (a.EvaluatesExactly s → b.EvaluatesExactly s → (a + b).EvaluatesExactly s →
              IsExactly ((a + b).evaluate s) (value (a.evaluate s) + value (b.evaluate s))))
      ∧ ((a.form - b.form).IsRepresentable →
          (∀ v,
            IsExactly ((a - b).coefficient v) (value (a.coefficient v) - value (b.coefficient v)))
            ∧ IsExactly (a - b).constant (value a.constant - value b.constant)
            ∧ (a.EvaluatesExactly s → b.EvaluatesExactly s → (a - b).EvaluatesExactly s →
                IsExactly ((a - b).evaluate s) (value (a.evaluate s) - value (b.evaluate s))))
      ∧ ((value k • a.form).IsRepresentable →
          (∀ v, IsExactly ((a.scale k).coefficient v) (value k * value (a.coefficient v)))
            ∧ IsExactly (a.scale k).constant (value k * value a.constant)
            ∧ (a.EvaluatesExactly s → (a.scale k).EvaluatesExactly s →
                IsExactly ((a.scale k).evaluate s) (value k * value (a.evaluate s))))
      ∧ ((∀ l, l <+: ts → (l.map form).sum.IsRepresentable) → (∀ t ∈ ts, t.EvaluatesExactly s) →
          (sum ts).EvaluatesExactly s →
            IsExactly ((sum ts).evaluate s) (ts.map fun t => value (t.evaluate s)).sum)
      ∧ (a - a == 0) = true
      ∧ (Binary64.IsRepresentable (value k - value a.constant) →
          (Operand.sub (.number k) (.term a) == .ofConstant k - a) = true) := by
  have hforma := represents_form ha
  have hformb := represents_form hb
  have hformk := represents_ofConstant (Binary64.isExactly_value hk)
  -- What an operand evaluates to is the value of its form.
  have heval : ∀ {t : Term Float}, t.IsFinite → t.EvaluatesExactly s →
      LinearForm.eval (valueAt s) t.form = value (t.evaluate s) :=
    fun ht h => (h.evaluate ht).value_eq.symm
  -- What a result evaluates to is the value of the form that it represents.
  have hevaluate : ∀ {t : Term Float} {φ : LinearForm}, t.Represents φ → t.EvaluatesExactly s →
      IsExactly (t.evaluate s) (LinearForm.eval (valueAt s) φ) := by
    intro t φ ht h
    rw [← ht.form_eq]
    exact h.evaluate ht.isFinite
  refine ⟨fun h => ?_, fun h => ?_, fun h => ?_, fun h hs hsum => ?_, ?_, fun h => ?_⟩
  · have hadd := hforma.add hformb h
    refine ⟨hadd.coefficient, hadd.constant, ?_, fun hsa hsb hs => ?_⟩
    · -- What is left is the form of the first term, and it determines the term.
      have hback := hadd.sub hformb (by
        rw [add_sub_cancel_right]
        exact hforma.isRepresentable)
      rw [add_sub_cancel_right] at hback
      exact hback.beq hforma
    · rw [← heval ha hsa, ← heval hb hsb, ← map_add]
      exact hevaluate hadd hs
  · have hsub := hforma.sub hformb h
    refine ⟨hsub.coefficient, hsub.constant, fun hsa hsb hs => ?_⟩
    rw [← heval ha hsa, ← heval hb hsb, ← map_sub]
    exact hevaluate hsub hs
  · have hscale := hforma.scale (Binary64.isExactly_value hk) h
    refine ⟨hscale.coefficient, hscale.constant, fun hsa hs => ?_⟩
    rw [← heval ha hsa, ← smul_eq_mul, ← map_smul]
    exact hevaluate hscale hs
  · have hvalues : (ts.map fun t => value (t.evaluate s))
        = (ts.map form).map (LinearForm.eval (valueAt s)) := by
      rw [List.map_map]
      exact List.map_congr_left fun t ht => (heval (hts t ht) (hs t ht)).symm
    rw [hvalues, ← map_list_sum]
    exact hevaluate (represents_sum hts h) hsum
  · have hdifference := hforma.sub hforma (by
      rw [sub_self]
      exact LinearForm.isRepresentable_zero)
    rw [sub_self] at hdifference
    exact hdifference.beq (represents_ofConstant Binary64.isExactly_zero)
  · have hdifference : (LinearForm.ofConstant (value k) - a.form).IsRepresentable := by
      refine ⟨fun v => ?_, h⟩
      show Binary64.IsRepresentable (0 - a.form.1 v)
      rw [zero_sub]
      exact (hforma.isRepresentable.1 v).neg
    -- The number goes behind the opposite, so the sum is taken in another order.
    have hnegated : (-a + ofConstant k).Represents (LinearForm.ofConstant (value k) - a.form) := by
      rw [sub_eq_neg_add] at hdifference ⊢
      exact hforma.neg.add hformk hdifference
    exact hnegated.beq (hformk.sub hforma hdifference)

/-! Two variables of one name stay apart: one of them is cancelled. -/

/-- Twice a variable, and three times another one of the same name. -/
def namesakes : Term Float := .weighted ⟨0, "x"⟩ 2 + .weighted ⟨1, "x"⟩ 3 + .ofConstant 1

/-- A term with one of these variables, the opposite of what is above,
and with a third one. -/
def offset : Term Float := .weighted ⟨0, "x"⟩ (-2) + .weighted ⟨2, "y"⟩ 5 + .ofConstant 4

/-- Values for the two namesakes only. -/
def pointAtNamesakes : Valuation Float := .ofList [(⟨0, "x"⟩, 7), (⟨1, "x"⟩, 2)]

theorem namesakes_areLinear :
    IsExactly ((namesakes + offset).coefficient ⟨0, "x"⟩) 0
      ∧ IsExactly ((namesakes + offset).coefficient ⟨1, "x"⟩) 3
      ∧ IsExactly (namesakes + offset).constant 5
      ∧ (namesakes + offset - offset == namesakes) = true
      ∧ IsExactly ((namesakes + offset).evaluate pointAtNamesakes) 11
      ∧ IsExactly ((namesakes - offset).coefficient ⟨0, "x"⟩) 4
      ∧ IsExactly (namesakes - offset).constant (-3)
      ∧ IsExactly ((namesakes - offset).evaluate pointAtNamesakes) 31
      ∧ IsExactly ((namesakes.scale 3).coefficient ⟨1, "x"⟩) 9
      ∧ IsExactly (namesakes.scale 3).constant 3
      ∧ IsExactly ((namesakes.scale 3).evaluate pointAtNamesakes) 63
      ∧ IsExactly ((sum [namesakes, offset, namesakes]).evaluate pointAtNamesakes) 32
      ∧ (namesakes - namesakes == 0) = true
      ∧ (Operand.sub (.number 3) (.term namesakes) == .ofConstant 3 - namesakes) = true := by
  have hintegers : ∀ t ∈ [namesakes, offset, namesakes + offset, namesakes - offset,
      namesakes.scale 3, sum [namesakes, offset, namesakes]],
      t.HasIntegers pointAtNamesakes 20 7 := by decide +kernel
  simp only [List.forall_mem_cons] at hintegers
  obtain ⟨hleft, hright, hadded, hsubtracted, hscaled, hsummed, -⟩ := hintegers
  have hleftFinite : namesakes.IsFinite := ⟨by decide +kernel, by decide +kernel⟩
  have hrightFinite : offset.IsFinite := ⟨by decide +kernel, by decide +kernel⟩
  have hforms : ∀ t ∈ [namesakes, offset, namesakes],
      t.IsFinite ∧ t.form.IsIntegerUpTo 20 ∧ t.EvaluatesExactly pointAtNamesakes := by
    simp only [List.forall_mem_cons]
    exact ⟨⟨hleftFinite, hleft.form, hleft.evaluatesExactly⟩,
      ⟨hrightFinite, hright.form, hright.evaluatesExactly⟩,
      ⟨hleftFinite, hleft.form, hleft.evaluatesExactly⟩, List.forall_mem_nil _⟩
  obtain ⟨hadd, hsub, hscale, hsum, hzero, hnumber⟩ :=
    arithmetic_isLinear namesakes offset 3 [namesakes, offset, namesakes] pointAtNamesakes
      hleftFinite hrightFinite (by decide +kernel) fun t ht => (hforms t ht).1
  have hthree : Binary64.IsIntegerUpTo 3 (value 3) := by decide +kernel
  obtain ⟨hadd, haddConstant, hback, haddValue⟩ :=
    hadd ((hleft.form.add hright.form).isRepresentable (by decide))
  obtain ⟨hsub, hsubConstant, hsubValue⟩ :=
    hsub ((hleft.form.sub hright.form).isRepresentable (by decide))
  obtain ⟨hscale, hscaleConstant, hscaleValue⟩ :=
    hscale ((hleft.form.smul hthree).isRepresentable (by decide))
  have hsum := hsum
    (fun l => isRepresentable_prefix_sum (fun t ht => (hforms t ht).2.1) (by decide))
    (fun t ht => (hforms t ht).2.2) hsummed.evaluatesExactly
  have hnumber := hnumber (Binary64.IsIntegerUpTo.isRepresentable (n := 20) (by decide +kernel)
    (by decide))
  have hexact : ∀ {x : Float} {p q : ℚ}, IsExactly x p → p = q → IsExactly x q :=
    fun h heq => heq ▸ h
  refine ⟨hexact (hadd _) (by decide +kernel), hexact (hadd _) (by decide +kernel),
    hexact haddConstant (by decide +kernel), hback, hexact
      (haddValue hleft.evaluatesExactly hright.evaluatesExactly hadded.evaluatesExactly)
      (by decide +kernel),
    hexact (hsub _) (by decide +kernel), hexact hsubConstant (by decide +kernel), hexact
      (hsubValue hleft.evaluatesExactly hright.evaluatesExactly hsubtracted.evaluatesExactly)
      (by decide +kernel),
    hexact (hscale _) (by decide +kernel), hexact hscaleConstant (by decide +kernel), hexact
      (hscaleValue hleft.evaluatesExactly hscaled.evaluatesExactly) (by decide +kernel),
    hexact hsum (by decide +kernel), hzero, hnumber⟩

end Term

end LinearProgram
