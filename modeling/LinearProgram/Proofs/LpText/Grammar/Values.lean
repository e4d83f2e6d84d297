import LinearProgram.Proofs.LpText.Grammar.Expressions
import LinearProgram.Proofs.Model.LinearForms

/-!
# `LinearProgram.Proofs.LpText.Grammar.Values`: what expressions are worth

Every summand of an expression has a share in one coefficient, or in the
constant if it has no name: the product of its numbers, negative if the
minus signs in front are an odd number. What the reader makes of the
expression has the totals of these shares, as long as no number on the way
is rounded.

* `total` adds shares up, and `Summation.IsExact` says that nothing is
  rounded. Integers with room are not
  (`Summation.HasIntegers.isExact`).
* `form_sum` has the totals as a linear form. The terms that are added
  represent the forms of the summands (`Summand.represents_term`), so their
  sum represents the sum (`Summation.represents_term`).
* `expression_isSum` puts this together with the grammar.
-/

set_option autoImplicit false

namespace LinearProgram.LpText

open Binary64 (value IsExactly)

/-! ### Shares and totals -/

/-- What a product is worth apart from its name. -/
def Monomial.worth (m : Monomial Float) : ℚ := (m.numbers.map value).prod

/-- The factor that the signs in front of a product stand for. -/
def Summand.sign (p : Summand Float) : ℚ := (-1) ^ p.signs.count true

/-- What a summand adds to a coefficient or to the constant. -/
def Summand.share (p : Summand Float) : ℚ := p.sign * p.monomial.worth

/-- The shares of all summands with a name, or of those without one. -/
def total (ps : List (Summand Float)) (name? : Option String) : ℚ :=
  ((ps.filter fun p => p.monomial.name? = name?).map Summand.share).sum

theorem total_cons (p : Summand Float) (ps : List (Summand Float)) (name? : Option String) :
    total (p :: ps) name? = (if p.monomial.name? = name? then p.share else 0) + total ps name? := by
  by_cases h : p.monomial.name? = name?
  · rw [if_pos h, total, List.filter_cons, if_pos (decide_eq_true h), List.map_cons, List.sum_cons,
      total]
  · rw [if_neg h, zero_add, total, List.filter_cons, if_neg fun heq => h (of_decide_eq_true heq),
      total]

/-- Whether an expression is read without rounding: its numbers are finite,
and every product and every total on the way is the value of a double. -/
structure Summation.IsExact (e : Summation Float) : Prop where
  finite : ∀ p ∈ e.summands, ∀ x ∈ p.monomial.numbers, x.isFinite = true
  products : ∀ p ∈ e.summands, ∀ l, l <+: p.monomial.numbers →
    Binary64.IsRepresentable (l.map value).prod
  totals : ∀ l, l <+: e.summands → ∀ name?, Binary64.IsRepresentable (total l name?)

theorem foldl_xor_eq (signs : List Bool) (negative : Bool) :
    (if signs.foldl xor negative then -1 else 1 : ℚ)
      = (if negative then -1 else 1) * (-1) ^ signs.count true := by
  induction signs generalizing negative with
  | nil => rw [List.foldl_nil, List.count_nil, pow_zero, mul_one]
  | cons sign signs ih =>
      rw [List.foldl_cons, ih]
      cases negative <;> cases sign <;> simp [pow_succ]

/-- An even number of minus signs is no sign. -/
theorem Summand.sign_eq (p : Summand Float) : p.sign = if p.isNegative then -1 else 1 := by
  rw [isNegative, foldl_xor_eq, if_neg Bool.false_ne_true, one_mul, sign]

/-- Whether the products in an expression are integers, with room for all of
them. -/
def Summation.HasIntegers (e : Summation Float) (n : Nat) : Prop :=
  (∀ p ∈ e.summands, (∀ x ∈ p.monomial.numbers, x.isFinite = true)
      ∧ ∀ l ∈ p.monomial.numbers.inits, Binary64.IsIntegerUpTo n (l.map value).prod)
    ∧ e.summands.length * n < 2 ^ 53

instance (e : Summation Float) (n : Nat) : Decidable (e.HasIntegers n) :=
  inferInstanceAs (Decidable (_ ∧ _))

theorem Summand.isIntegerUpTo_share {p : Summand Float} {n : Nat}
    (h : Binary64.IsIntegerUpTo n p.monomial.worth) : Binary64.IsIntegerUpTo n p.share := by
  rw [share, sign_eq]
  cases p.isNegative with
  | true =>
      rw [if_pos rfl, neg_one_mul]
      exact h.neg
  | false =>
      rw [if_neg Bool.false_ne_true, one_mul]
      exact h

/-- Integers are added and multiplied without rounding, if there is room. -/
theorem Summation.HasIntegers.isExact {e : Summation Float} {n : Nat} (h : e.HasIntegers n) :
    e.IsExact := by
  obtain ⟨hproducts, hroom⟩ := h
  refine ⟨fun p hp => (hproducts p hp).1, fun p hp l hl => ?_, fun l hl name? => ?_⟩
  · have hone : 1 * n ≤ e.summands.length * n := Nat.mul_le_mul_right n (Nat.succ_pos _)
    exact ((hproducts p hp).2 l ((List.mem_inits _ _).mpr hl)).isRepresentable (by omega)
  · have hsub : (l.filter fun p => p.monomial.name? = name?).Sublist e.summands :=
      List.filter_sublist.trans hl.sublist
    have hshare : ∀ p ∈ l.filter fun p => p.monomial.name? = name?,
        Binary64.IsIntegerUpTo n p.share := fun p hp =>
      Summand.isIntegerUpTo_share ((hproducts p (hsub.subset hp)).2 _
        ((List.mem_inits _ _).mpr (List.prefix_refl _)))
    have htotal : Binary64.IsIntegerUpTo _ (total l name?) :=
      sum_map_bounded (Binary64.isIntegerUpTo_zero 0) Binary64.IsIntegerUpTo.add hshare
    exact htotal.isRepresentable
      (Nat.lt_of_le_of_lt (Nat.mul_le_mul_right n hsub.length_le) hroom)

/-! ### Forms -/

section

variable {handle : String → Variable}

/-- The form of a product where names stand for variables. -/
noncomputable def Monomial.form (handle : String → Variable) (m : Monomial Float) : LinearForm :=
  match m.name? with
  | some name => (Finsupp.single (handle name) m.worth, 0)
  | none => .ofConstant m.worth

noncomputable def Summand.form (handle : String → Variable) (p : Summand Float) : LinearForm :=
  p.sign • p.monomial.form handle

theorem Summand.form_constant (p : Summand Float) :
    (p.form handle).2 = if p.monomial.name? = none then p.share else 0 := by
  show p.sign * (p.monomial.form handle).2 = _
  unfold Monomial.form Summand.share
  cases p.monomial.name? with
  | none => rfl
  | some name => exact mul_zero _

theorem Summand.form_coefficient (hhandle : ∀ name, (handle name).name = name) (p : Summand Float)
    (name : String) : (p.form handle).1 (handle name)
      = if p.monomial.name? = some name then p.share else 0 := by
  show p.sign * (p.monomial.form handle).1 (handle name) = _
  unfold Monomial.form Summand.share
  cases p.monomial.name? with
  | none => exact mul_zero _
  | some other =>
      by_cases hname : other = name
      · rw [hname, if_pos rfl]
        exact congrArg (p.sign * ·) Finsupp.single_eq_same
      · -- Another name stands for another variable.
        have hne : handle other ≠ handle name := fun heq => hname (by
          rw [← hhandle other, heq, hhandle])
        rw [if_neg fun heq => hname (Option.some.inj heq)]
        exact (congrArg (p.sign * ·) (Finsupp.single_eq_of_ne' hne)).trans (mul_zero _)

theorem Summand.form_other {v : Variable} (hv : ∀ name, handle name ≠ v) (p : Summand Float) :
    (p.form handle).1 v = 0 := by
  show p.sign * (p.monomial.form handle).1 v = _
  unfold Monomial.form
  cases p.monomial.name? with
  | none => exact mul_zero _
  | some name =>
      exact (congrArg (p.sign * ·) (Finsupp.single_eq_of_ne' (hv name))).trans (mul_zero _)

/-- The sum of the forms has the totals of the shares. -/
theorem form_sum (hhandle : ∀ name, (handle name).name = name) (ps : List (Summand Float)) :
    (∀ name, (ps.map (Summand.form handle)).sum.1 (handle name) = total ps (some name))
      ∧ (∀ v, (∀ name, handle name ≠ v) → (ps.map (Summand.form handle)).sum.1 v = 0)
      ∧ (ps.map (Summand.form handle)).sum.2 = total ps none := by
  induction ps with
  | nil => exact ⟨fun _ => rfl, fun _ _ => rfl, rfl⟩
  | cons p ps ih =>
      obtain ⟨hcoefficient, hother, hconstant⟩ := ih
      rw [List.map_cons, List.sum_cons]
      refine ⟨fun name => ?_, fun v hv => ?_, ?_⟩
      · rw [total_cons, ← p.form_coefficient hhandle, ← hcoefficient]
        rfl
      · show (p.form handle).1 v + _ = _
        rw [p.form_other hv, zero_add, hother v hv]
      · have hp : (p.form handle).2 = _ := p.form_constant
        rw [total_cons, ← hp, ← hconstant]
        rfl

theorem isRepresentable_form_sum (hhandle : ∀ name, (handle name).name = name)
    {ps : List (Summand Float)} (h : ∀ name?, Binary64.IsRepresentable (total ps name?)) :
    (ps.map (Summand.form handle)).sum.IsRepresentable := by
  obtain ⟨hcoefficient, hother, hconstant⟩ := form_sum hhandle ps
  refine ⟨fun v => ?_, hconstant ▸ h none⟩
  by_cases hv : ∃ name, handle name = v
  · obtain ⟨name, rfl⟩ := hv
    exact hcoefficient name ▸ h (some name)
  · rw [hother v fun name heq => hv ⟨name, heq⟩]
    exact Binary64.isRepresentable_zero

/-! ### Terms -/

/-- Numbers are multiplied from left to right, which is a sum where
products are written as sums. -/
theorem foldl_mul_exact {l : List Float} (hfinite : ∀ x ∈ l, x.isFinite = true)
    (hproducts : ∀ l', l' <+: l → Binary64.IsRepresentable (l'.map value).prod) :
    IsExactly (l.foldl (· * ·) 1) (l.map value).prod := by
  rw [← one_mul (List.prod _)]
  refine foldl_add_exact (X := Additive Float) (A := Additive ℚ)
    (R := fun x q => IsExactly x.toMul q.toMul) (P := fun q => Binary64.IsRepresentable q.toMul)
    (f := Additive.ofMul) (g := fun x => .ofMul (value x)) IsExactly.mul
    (fun x hx => Binary64.isExactly_value (hfinite x hx)) Binary64.isExactly_one fun l' hl' => ?_
  show Binary64.IsRepresentable (1 * (l'.map value).prod)
  rw [one_mul]
  exact hproducts l' hl'

theorem represents_weighted {c : Float} {q : ℚ} (h : IsExactly c q) (v : Variable) :
    (Term.weighted v c).Represents (Finsupp.single v q, 0) := by
  refine ⟨fun w => ?_, ?_⟩
  · rw [Term.coefficient, Term.get?_weighted]
    split
    · rename_i hw
      rw [hw, Finsupp.single_eq_same]
      exact Term.isExactly_keep h
    · rename_i hw
      rw [Finsupp.single_eq_of_ne hw]
      exact Binary64.isExactly_zero
  · rw [constant_weighted]
    exact Binary64.isExactly_zero

theorem Monomial.represents_term (m : Monomial Float)
    (h : IsExactly (m.numbers.foldl (· * ·) 1) m.worth) :
    (m.term handle).Represents (m.form handle) := by
  unfold term form
  cases m.name? with
  | none => exact Term.represents_ofConstant h
  | some name => exact represents_weighted h (handle name)

theorem Summand.represents_term (p : Summand Float)
    (h : IsExactly (p.monomial.numbers.foldl (· * ·) 1) p.monomial.worth) :
    (p.term handle).Represents (p.form handle) := by
  have hmonomial : (p.monomial.term handle).Represents (p.monomial.form handle) :=
    p.monomial.represents_term h
  rw [term, form, sign_eq]
  cases p.isNegative with
  | true =>
      rw [if_pos rfl, neg_one_smul]
      exact hmonomial.neg
  | false =>
      refine hmonomial.scale Binary64.isExactly_one ?_
      rw [if_neg Bool.false_ne_true, one_smul]
      exact hmonomial.isRepresentable

/-- What is read without rounding has the totals of the shares. -/
theorem Summation.represents_term {e : Summation Float} (h : e.IsExact)
    (hhandle : ∀ name, (handle name).name = name) :
    (e.term handle).Represents (e.summands.map (Summand.form handle)).sum := by
  rw [← zero_add (List.sum _)]
  refine foldl_add_exact Term.Represents.add (fun p hp => ?_)
    (Term.represents_ofConstant Binary64.isExactly_zero) fun l hl => ?_
  · exact p.represents_term (foldl_mul_exact (h.finite p hp) (h.products p hp))
  · rw [zero_add]
    exact isRepresentable_form_sum hhandle (h.totals l hl)

/-! ### Variables -/

theorem Monomial.mem_occurring_term {m : Monomial Float} {v : Variable}
    (h : v ∈ (m.term handle).occurring) : ∃ name, m.name? = some name ∧ handle name = v := by
  unfold term at h
  cases hname : m.name? with
  | none =>
      rw [hname] at h
      cases h
  | some name =>
      rw [hname] at h
      rcases Term.mem_occurring_addTerm h with h | rfl
      · cases h
      · exact ⟨name, rfl, rfl⟩

/-- Only the names of an expression stand for variables of its term. -/
theorem Summation.mem_occurring_term {e : Summation Float} {v : Variable}
    (h : v ∈ (e.term handle).occurring) :
    ∃ p ∈ e.summands, ∃ name, p.monomial.name? = some name ∧ handle name = v := by
  have hall : ∀ (ps : List (Summand Float)) (t : Term Float),
      v ∈ (ps.foldl (fun t p => t + p.term handle) t).occurring →
        v ∈ t.occurring ∨ ∃ p ∈ ps, ∃ name, p.monomial.name? = some name ∧ handle name = v := by
    intro ps
    induction ps with
    | nil => exact fun t h => .inl h
    | cons p ps ih =>
        intro t h
        rcases ih _ h with h | ⟨q, hq, hname⟩
        · rcases Term.mem_occurring_add h with h | h
          · exact .inl h
          · exact .inr ⟨p, List.mem_cons_self .., Monomial.mem_occurring_term
              (Term.mem_occurring_scale h)⟩
        · exact .inr ⟨q, List.mem_cons_of_mem _ hq, hname⟩
  rcases hall e.summands 0 h with h | h
  · cases h
  · exact h

end

/-! ### Expressions -/

/-- Tokens are read as an expression if and only if they are those of a sum
of products. Then all names are entered. If no number on the way is rounded,
the coefficient of a name is the total of the summands with this name, and
the constant is the total of those without a name. No other variables
occur. -/
theorem expression_isSum (tokens : List (Token Float)) (s : Symbols) :
    ((∃ t s', expression tokens s = (.ok t, s')) ↔ ∃ e : Summation Float, e.tokens = tokens)
      ∧ ∀ e : Summation Float, e.tokens = tokens →
          ∃ t s', expression tokens s = (.ok t, s')
            ∧ (∀ name, .name name ∈ tokens → ∃ entry, s'.entries.get? name = some entry
                ∧ (e.IsExact →
                    IsExactly (t.coefficient entry.handle) (total e.summands (some name))))
            ∧ (e.IsExact → IsExactly t.constant (total e.summands none))
            ∧ ∀ v ∈ t.occurring, ∃ name entry, .name name ∈ tokens
                ∧ s'.entries.get? name = some entry ∧ entry.handle = v := by
  refine ⟨expression_accepts_iff tokens s, ?_⟩
  rintro e rfl
  obtain ⟨s', hread, hknown⟩ := exists_expression_eq e s
  have hhandle : ∀ name, (s'.handle name).name = name := s'.name_mention
  obtain ⟨hcoefficient, -, hconstant⟩ := form_sum hhandle e.summands
  refine ⟨_, s', hread, fun name hname => ?_, fun hexact => ?_, fun v hv => ?_⟩
  · obtain ⟨p, hp, hname⟩ := (e.name_mem_tokens_iff name).mp hname
    obtain ⟨entry, hentry⟩ := hknown p hp name hname
    refine ⟨entry, hentry, fun hexact => ?_⟩
    rw [← Symbols.handle_of_get? hentry, ← hcoefficient]
    exact (Summation.represents_term hexact hhandle).coefficient _
  · rw [← hconstant]
    exact (Summation.represents_term hexact hhandle).constant
  · obtain ⟨p, hp, name, hname, rfl⟩ := Summation.mem_occurring_term hv
    obtain ⟨entry, hentry⟩ := hknown p hp name hname
    exact ⟨name, entry, (e.name_mem_tokens_iff name).mpr ⟨p, hp, hname⟩, hentry,
      (Symbols.handle_of_get? hentry).symm⟩

/-- `+ 2 x - - x 3 * 4 - 14 x + y - 5`, in which a variable is cancelled. -/
def cancelledSum : Summation Float where
  first := ⟨[false], .number 2, [⟨false, .name "x"⟩], by decide⟩
  others :=
    [⟨[true, true], .name "x", [⟨false, .number 3⟩, ⟨true, .number 4⟩], by decide⟩,
      ⟨[true], .number 14, [⟨false, .name "x"⟩], by decide⟩,
      ⟨[false], .name "y", [], by decide⟩,
      ⟨[true], .number 5, [], by decide⟩]
  signed := by decide

theorem cancelledSum_isRead :
    ∃ t s', expression [.plus, .number 2, .name "x", .minus, .minus, .name "x", .number 3, .star,
          .number 4, .minus, .number 14, .name "x", .plus, .name "y", .minus, .number 5]
        (.start ∅) = (.ok t, s')
      ∧ (∃ entry, s'.entries.get? "x" = some entry ∧ IsExactly (t.coefficient entry.handle) 0)
      ∧ (∃ entry, s'.entries.get? "y" = some entry ∧ IsExactly (t.coefficient entry.handle) 1)
      ∧ IsExactly t.constant (-5) := by
  have hexact : cancelledSum.IsExact :=
    Summation.HasIntegers.isExact (n := 14) (by decide +kernel)
  obtain ⟨t, s', hread, hcoefficient, hconstant, -⟩ :=
    (expression_isSum cancelledSum.tokens (.start ∅)).2 cancelledSum rfl
  obtain ⟨x, hx, hxexact⟩ := hcoefficient "x"
    ((cancelledSum.name_mem_tokens_iff "x").mpr (by decide))
  obtain ⟨y, hy, hyexact⟩ := hcoefficient "y"
    ((cancelledSum.name_mem_tokens_iff "y").mpr (by decide))
  have htotals : total cancelledSum.summands (some "x") = 0
      ∧ total cancelledSum.summands (some "y") = 1
      ∧ total cancelledSum.summands none = -5 := by decide +kernel
  obtain ⟨hxtotal, hytotal, htotal⟩ := htotals
  exact ⟨t, s', hread, ⟨x, hx, hxtotal ▸ hxexact hexact⟩, ⟨y, hy, hytotal ▸ hyexact hexact⟩,
    htotal ▸ hconstant hexact⟩

end LinearProgram.LpText
