import LinearProgram.Operand
import LinearProgram.Proofs.Model.Copies
import Mathlib.Data.Set.Card

/-!
# `LinearProgram.Proofs.Model.Composition`: no term holds a coefficient that is zero

Terms are composed of operations, and each of them changes coefficients
in a way of its own: it adds to one, replaces one, multiplies all of
them, or takes over those of another term. A `Composition` is what can
be composed, and `Composition.term` is the term that comes out.

Beside the term stands what the same operations leave in a plain map,
which holds whatever it is given: `accumulate`, `replace`, `rescale` and
`accumulateAll` are the changes, `Composition.stored` is the map after a
composition. Only the tests that an operation makes keep zeros out of
it.

* Each change keeps zeros out (`HasNoZero.accumulate` and so on). A zero
  can come from a number that is given, from numbers that cancel each
  other, or from a product that is too small.
* `coefficients_term`: the coefficients of a term are that plain map.
* `composition_isReduced` puts these together. A term is then constant
  exactly if no variable has a coefficient other than zero, and it has
  as many coefficients as there are such variables. What is read of an
  expression is a composition too (`exists_of_expression`).
-/

set_option autoImplicit false

namespace LinearProgram

variable {K : Type} [Scalar K]

/-! ### Changes of a plain map -/

namespace Coefficients

/-- Adds to the number of a variable. It is taken out where it becomes
zero. -/
def accumulate (m : Valuation K) (v : Variable) (c : K) : Valuation K :=
  if c == 0 then m
  else
    match m.get? v with
    | some d => if d + c == 0 then m.erase v else m.insert v (d + c)
    | none => m.insert v c

/-- Replaces the number of a variable; zero takes it out. -/
def replace (m : Valuation K) (v : Variable) (c : K) : Valuation K :=
  if c == 0 then m.erase v else m.insert v c

/-- Multiplies all numbers, and then takes out what has become zero. -/
def rescale (m : Valuation K) (factor : K) : Valuation K :=
  (m.filterMap fun c => some (c * factor)).filterMap fun c => if c == 0 then none else some c

/-- Adds multiples of the numbers of another map, one after another. -/
def accumulateAll (m other : Valuation K) (sign : K) : Valuation K :=
  other.toList.foldl (fun m p => accumulate m p.1 (sign * p.2)) m

/-- Whether no number in a map is zero. -/
def HasNoZero (m : Valuation K) : Prop := ∀ v c, m.get? v = some c → (c == 0) = false

theorem hasNoZero_empty : HasNoZero (∅ : Valuation K) := by
  intro v c h
  simp at h

variable {m : Valuation K}

theorem HasNoZero.erase (h : HasNoZero m) (v : Variable) : HasNoZero (m.erase v) := by
  intro w c hw
  rw [OrderedMap.get?_erase] at hw
  split at hw
  · cases hw
  · exact h w c hw

theorem HasNoZero.insert (h : HasNoZero m) (v : Variable) {c : K} (hc : (c == 0) = false) :
    HasNoZero (m.insert v c) := by
  intro w d hw
  rw [OrderedMap.get?_insert] at hw
  split at hw
  · cases hw
    exact hc
  · exact h w d hw

/-- Where numbers cancel each other the entry goes. -/
theorem HasNoZero.accumulate (h : HasNoZero m) (v : Variable) (c : K) :
    HasNoZero (accumulate m v c) := by
  unfold Coefficients.accumulate
  cases hc : (c == 0) with
  | true => exact h
  | false =>
      simp only [Bool.false_eq_true, if_false]
      cases hget : m.get? v with
      | none => exact h.insert v hc
      | some d =>
          cases hsum : (d + c == 0) with
          | true => simpa [hsum] using h.erase v
          | false => simpa [hsum] using h.insert v hsum

theorem HasNoZero.replace (h : HasNoZero m) (v : Variable) (c : K) :
    HasNoZero (replace m v c) := by
  unfold Coefficients.replace
  cases hc : (c == 0) with
  | true => exact h.erase v
  | false => exact h.insert v hc

/-- A product can be zero where no factor is, but it does not stay. What
was in the map before does not matter. -/
theorem hasNoZero_rescale (m : Valuation K) (factor : K) : HasNoZero (rescale m factor) := by
  intro v c h
  rw [rescale, OrderedMap.get?_filterMap] at h
  obtain ⟨d, -, hd⟩ := Option.bind_eq_some_iff.mp h
  split at hd
  · cases hd
  · rename_i hzero
    cases hd
    simpa using hzero

theorem HasNoZero.accumulateAll (h : HasNoZero m) (other : Valuation K) (sign : K) :
    HasNoZero (accumulateAll m other sign) := by
  unfold Coefficients.accumulateAll
  induction other.toList generalizing m with
  | nil => exact h
  | cons p rest ih => exact ih (h.accumulate p.1 (sign * p.2))

/-! ### The changes that operators make -/

/-- The coefficients of a multiple. A variable alone is not multiplied
but weighted. -/
def multiple (a : Operand K) (m : Valuation K) (factor : K) : Valuation K :=
  match a with
  | .single v => accumulate ∅ v factor
  | _ => rescale m factor

/-- The coefficients of a sum. A number goes behind what it is added to. -/
def total (a : Operand K) (m n : Valuation K) : Valuation K :=
  match a with
  | .number _ => accumulateAll n m 1
  | _ => accumulateAll m n 1

/-- The coefficients of a difference. What is taken from a number is
turned round first. -/
def difference (a b : Operand K) (m n : Valuation K) : Valuation K :=
  match a, b with
  | .number _, .number _ => accumulateAll m n (-1)
  | .number _, b => accumulateAll (multiple b n (-1)) m 1
  | _, _ => accumulateAll m n (-1)

theorem hasNoZero_multiple (a : Operand K) (m : Valuation K) (factor : K) :
    HasNoZero (multiple a m factor) := by
  cases a with
  | single v => exact hasNoZero_empty.accumulate v factor
  | number c => exact hasNoZero_rescale m factor
  | term t => exact hasNoZero_rescale m factor

theorem HasNoZero.total {n : Valuation K} (hm : HasNoZero m) (hn : HasNoZero n) (a : Operand K) :
    HasNoZero (total a m n) := by
  cases a with
  | number c => exact hn.accumulateAll m 1
  | single v => exact hm.accumulateAll n 1
  | term t => exact hm.accumulateAll n 1

theorem HasNoZero.difference (hm : HasNoZero m) (a b : Operand K) (n : Valuation K) :
    HasNoZero (difference a b m n) := by
  cases a with
  | number c =>
      cases b with
      | number d => exact hm.accumulateAll n (-1)
      | single v => exact (hasNoZero_multiple _ n (-1)).accumulateAll m 1
      | term t => exact (hasNoZero_multiple _ n (-1)).accumulateAll m 1
  | single v => exact hm.accumulateAll n (-1)
  | term t => exact hm.accumulateAll n (-1)

end Coefficients

open Coefficients

/-! ### What the operations do to the coefficients of a term -/

namespace Term

theorem coefficients_addTerm (t : Term K) (v : Variable) (c : K) :
    (t.addTerm v c).coefficients = accumulate t.coefficients v c := by
  refine OrderedMap.ext_get? fun w => ?_
  rw [get?_addTerm, accumulate]
  cases hc : (c == 0) with
  | true =>
      by_cases hw : w = v
      · subst hw
        cases hget : t.coefficients.get? w <;> simp [keep, hc, hget]
      · simp [hw]
  | false =>
      simp only [Bool.false_eq_true, if_false]
      cases hget : t.coefficients.get? v with
      | none => rw [OrderedMap.get?_insert, keep_of_nonzero hc]
      | some d =>
          cases hsum : (d + c == 0) with
          | true => simp [keep, hsum, OrderedMap.get?_erase]
          | false => simp [keep, hsum, OrderedMap.get?_insert]

theorem coefficients_setCoefficient (t : Term K) (v : Variable) (c : K) :
    (t.setCoefficient v c).coefficients = replace t.coefficients v c := by
  refine OrderedMap.ext_get? fun w => ?_
  rw [get?_setCoefficient, replace]
  cases hc : (c == 0) with
  | true => simp [keep, hc, OrderedMap.get?_erase]
  | false => simp [keep, hc, OrderedMap.get?_insert]

theorem coefficients_scale (t : Term K) (factor : K) :
    (t.scale factor).coefficients = rescale t.coefficients factor := by
  refine OrderedMap.ext_get? fun v => ?_
  rw [get?_scale, rescale, OrderedMap.get?_filterMap, OrderedMap.get?_filterMap]
  cases t.coefficients.get? v <;> rfl

theorem coefficients_absorb (t other : Term K) (sign : K) :
    (t.absorb other sign).coefficients
      = accumulateAll t.coefficients other.coefficients sign := by
  have hfold : ∀ (l : List (Variable × K)) (t : Term K),
      (l.foldl (fun t p => t.addTerm p.1 (sign * p.2)) t).coefficients
        = l.foldl (fun m p => accumulate m p.1 (sign * p.2)) t.coefficients := by
    intro l
    induction l with
    | nil => exact fun t => rfl
    | cons p rest ih =>
        intro t
        rw [List.foldl_cons, List.foldl_cons, ih, coefficients_addTerm]
  exact hfold other.coefficients.toList _

end Term

namespace Operand

variable {a b : Operand K} {m n : Valuation K}

theorem coefficients_scale (ha : a.toTerm.coefficients = m) (factor : K) :
    (a.scale factor).coefficients = multiple a m factor := by
  subst ha
  cases a with
  | single v => exact Term.coefficients_addTerm 0 v factor
  | number c => exact Term.coefficients_scale _ factor
  | term t => exact Term.coefficients_scale _ factor

theorem coefficients_neg (ha : a.toTerm.coefficients = m) :
    a.neg.coefficients = multiple a m (-1) := by
  subst ha
  cases a with
  | single v => exact Term.coefficients_addTerm 0 v (-1)
  | number c => exact Term.coefficients_scale _ (-1)
  | term t => exact Term.coefficients_scale _ (-1)

theorem coefficients_add (ha : a.toTerm.coefficients = m) (hb : b.toTerm.coefficients = n) :
    (a.add b).coefficients = total a m n := by
  subst ha hb
  cases a with
  | number c => cases b <;> exact Term.coefficients_absorb _ _ 1
  | single v => exact Term.coefficients_absorb _ _ 1
  | term t => exact Term.coefficients_absorb _ _ 1

theorem coefficients_sub (ha : a.toTerm.coefficients = m) (hb : b.toTerm.coefficients = n) :
    (a.sub b).coefficients = difference a b m n := by
  have hneg := coefficients_neg hb
  subst ha
  cases a with
  | number c =>
      cases b with
      | number d =>
          subst hb
          exact Term.coefficients_absorb _ _ (-1)
      | single v =>
          have habsorb := Term.coefficients_absorb (neg (.single v)) (.ofConstant c) 1
          rw [hneg] at habsorb
          exact habsorb
      | term t =>
          have habsorb := Term.coefficients_absorb (neg (.term t)) (.ofConstant c) 1
          rw [hneg] at habsorb
          exact habsorb
  | single v =>
      subst hb
      exact Term.coefficients_absorb _ _ (-1)
  | term t =>
      subst hb
      exact Term.coefficients_absorb _ _ (-1)

end Operand

/-! ### Compositions -/

/-- What can be composed of the operations that make and change terms. -/
inductive Composition (K : Type) where
  /-- A number as one side of an operator. -/
  | number (c : K)
  /-- A variable as one side of an operator. -/
  | single (v : Variable)
  | constant (c : K)
  | weighted (v : Variable) (c : K)
  | addTerm (e : Composition K) (v : Variable) (c : K)
  | setCoefficient (e : Composition K) (v : Variable) (c : K)
  | addConstant (e : Composition K) (c : K)
  | setConstant (e : Composition K) (c : K)
  /-- A multiple, with the number on either side or in place. -/
  | scale (e : Composition K) (factor : K)
  | neg (e : Composition K)
  | add (a b : Composition K)
  | sub (a b : Composition K)

namespace Composition

/-- What a composition is to an operator. -/
def operand : Composition K → Operand K
  | number c => .number c
  | single v => .single v
  | constant c => .term (.ofConstant c)
  | weighted v c => .term (.weighted v c)
  | addTerm e v c => .term (e.operand.toTerm.addTerm v c)
  | setCoefficient e v c => .term (e.operand.toTerm.setCoefficient v c)
  | addConstant e c => .term (e.operand.toTerm.addConstant c)
  | setConstant e c => .term (e.operand.toTerm.setConstant c)
  | scale e factor => .term (e.operand.scale factor)
  | neg e => .term e.operand.neg
  | add a b => .term (a.operand.add b.operand)
  | sub a b => .term (a.operand.sub b.operand)

/-- The term that is composed. -/
def term (e : Composition K) : Term K := e.operand.toTerm

/-- The coefficients that the operations leave in a plain map. -/
def stored : Composition K → Valuation K
  | number _ => ∅
  | single v => accumulate ∅ v 1
  | constant _ => ∅
  | weighted v c => accumulate ∅ v c
  | addTerm e v c => accumulate e.stored v c
  | setCoefficient e v c => replace e.stored v c
  | addConstant e _ => e.stored
  | setConstant e _ => e.stored
  | scale e factor => multiple e.operand e.stored factor
  | neg e => multiple e.operand e.stored (-1)
  | add a b => total a.operand a.stored b.stored
  | sub a b => difference a.operand b.operand a.stored b.stored

/-- No composition leaves a zero in a plain map. -/
theorem hasNoZero_stored (e : Composition K) : HasNoZero e.stored := by
  induction e with
  | number c => exact hasNoZero_empty
  | single v => exact hasNoZero_empty.accumulate v 1
  | constant c => exact hasNoZero_empty
  | weighted v c => exact hasNoZero_empty.accumulate v c
  | addTerm e v c ih => exact ih.accumulate v c
  | setCoefficient e v c ih => exact ih.replace v c
  | addConstant e c ih => exact ih
  | setConstant e c ih => exact ih
  | scale e factor _ => exact hasNoZero_multiple _ _ factor
  | neg e _ => exact hasNoZero_multiple _ _ (-1)
  | add a b iha ihb => exact iha.total ihb _
  | sub a b iha _ => exact iha.difference _ _ _

/-- The coefficients of a term are what the operations leave in a plain
map. -/
theorem coefficients_term (e : Composition K) : e.term.coefficients = e.stored := by
  induction e with
  | number c => rfl
  | single v => exact Term.coefficients_addTerm 0 v 1
  | constant c => rfl
  | weighted v c => exact Term.coefficients_addTerm 0 v c
  | addTerm e v c ih =>
      rw [stored, ← ih]
      exact Term.coefficients_addTerm e.term v c
  | setCoefficient e v c ih =>
      rw [stored, ← ih]
      exact Term.coefficients_setCoefficient e.term v c
  | addConstant e c ih => exact ih
  | setConstant e c ih => exact ih
  | scale e factor ih => exact Operand.coefficients_scale ih factor
  | neg e ih => exact Operand.coefficients_neg ih
  | add a b iha ihb => exact Operand.coefficients_add iha ihb
  | sub a b iha ihb => exact Operand.coefficients_sub iha ihb

/-- The sum of compositions is the one that adds them one after another. -/
theorem exists_sum (es : List (Composition K)) :
    ∃ e : Composition K, e.operand = .term (Term.sum (es.map term)) := by
  have hfold : ∀ (es : List (Composition K)) (e : Composition K) (t : Term K),
      e.operand = .term t →
        ∃ e' : Composition K, e'.operand = .term ((es.map term).foldl (· + ·) t) := by
    intro es
    induction es with
    | nil => exact fun e t h => ⟨e, h⟩
    | cons next rest ih =>
        intro e t h
        refine ih (.add e next) (t + next.term) ?_
        rw [operand, h]
        rfl
  exact hfold es (.constant 0) 0 rfl

end Composition

/-! ### Expressions that are read -/

namespace LpText

/-- What is read of factors is a variable with a coefficient, or a number. -/
theorem exists_product_of_factors {tokens : List (Token K)} {c : K} {v : Option Variable}
    {isOpen : Bool} {s s' : Symbols} {t : Term K}
    (h : factors c v isOpen tokens s = (.ok t, s')) : ∃ d w, t = product d w := by
  induction tokens generalizing c v isOpen s with
  | nil =>
      rw [factors] at h
      split at h
      · cases h
      · cases h
        exact ⟨c, v, rfl⟩
  | cons token rest ih =>
      cases token with
      | number value => exact ih h
      | name name =>
          cases v with
          | some u => cases h
          | none => exact ih h
      | star =>
          rw [factors] at h
          split at h
          · cases h
          · exact ih h
      | plus => cases h
      | minus => cases h
      | colon => cases h
      | arrow => cases h
      | relation r => cases h

theorem exists_of_addSummands {parts : List (Bool × List (Token K))} {e : Composition K}
    {t u : Term K} {s s' : Symbols} (he : e.operand = .term t)
    (h : addSummands t parts s = (.ok u, s')) :
    ∃ e' : Composition K, e'.operand = .term u := by
  induction parts generalizing e t s with
  | nil =>
      cases h
      exact ⟨e, he⟩
  | cons p rest ih =>
      obtain ⟨negative, tokens⟩ := p
      obtain ⟨x, s₁, hx, hrest⟩ := action_bind_inv h
      obtain ⟨c, v, rfl⟩ := exists_product_of_factors hx
      -- The summand is a composition, and so is the sum with it.
      have hproduct : ∃ f : Composition K, f.operand = .term (product c v) := by
        cases v with
        | none => exact ⟨.constant c, rfl⟩
        | some w => exact ⟨.weighted w c, rfl⟩
      obtain ⟨f, hf⟩ := hproduct
      refine ih (e := .add e (.scale f (if negative then -1 else 1))) ?_ hrest
      rw [Composition.operand, Composition.operand, he, hf]
      rfl

/-- What is read of an expression is a composition. -/
theorem exists_of_expression {tokens : List (Token K)} {s s' : Symbols} {t : Term K}
    (h : expression tokens s = (.ok t, s')) :
    ∃ e : Composition K, e.operand = .term t := by
  rw [expression] at h
  split at h
  · cases h
  · exact exists_of_addSummands (e := .constant 0) rfl h

end LpText

/-! ### Terms without zeros -/

/-- Whether the coefficients of a term are what its variables contribute:
none is zero, so that a term is constant exactly if every coefficient is
zero, and its size is the number of variables with another one. -/
structure Term.IsReduced (t : Term Float) : Prop where
  nonzero : ∀ v c, t.coefficients.get? v = some c → (c == 0) = false
  isConstant_iff : t.isConstant = true ↔ ∀ v, (t.coefficient v == 0) = true
  size_eq : {v | (t.coefficient v == 0) = false}.encard = t.size

namespace Term

/-- Where no coefficient is zero, a variable occurs exactly if its
coefficient is not zero. -/
theorem mem_occurring_iff_coefficient {t : Term Float} (h : HasNoZero t.coefficients) {v : Variable} :
    v ∈ t.occurring ↔ (t.coefficient v == 0) = false := by
  rw [mem_occurring, coefficient]
  cases hget : t.coefficients.get? v with
  | none =>
      have hzero : ((0 : Float) == 0) = true := by decide
      simp [hzero]
  | some c => simpa using h v c hget

theorem isReduced_of_hasNoZero {t : Term Float} (h : HasNoZero t.coefficients) :
    t.IsReduced := by
  refine ⟨h, ?_, ?_⟩
  · have hnone : t.isConstant = true ↔ ∀ v, v ∉ t.occurring := by
      rw [isConstant, OrderedMap.isEmpty_iff]
      simp only [mem_occurring, not_exists, Option.eq_none_iff_forall_ne_some]
    rw [hnone]
    simp only [mem_occurring_iff_coefficient h, Bool.not_eq_false]
  · have hset : {v | (t.coefficient v == 0) = false} = (t.occurring.toFinset : Set Variable) := by
      ext v
      simp [mem_occurring_iff_coefficient h]
    rw [hset, Set.encard_coe_eq_coe_finsetCard,
      List.toFinset_card_of_nodup t.nodup_occurring, occurring, OrderedMap.keys, List.length_map]
    rfl

end Term

/-- No term holds a coefficient that is zero. Whatever is composed, of
whatever doubles, holds the coefficients that the operations leave in a
plain map, and they keep zeros out of it: sums of terms and expressions
that are read are such compositions. -/
theorem composition_isReduced :
    (∀ e : Composition Float, e.term.coefficients = e.stored ∧ e.term.IsReduced)
      ∧ (∀ es : List (Composition Float), ∃ e : Composition Float,
        e.operand = .term (Term.sum (es.map Composition.term)))
      ∧ ∀ (tokens : List (LpText.Token Float)) (s s' : LpText.Symbols) (t : Term Float),
        LpText.expression tokens s = (.ok t, s') →
          ∃ e : Composition Float, e.operand = .term t := by
  refine ⟨fun e => ⟨e.coefficients_term, ?_⟩, Composition.exists_sum, ?_⟩
  · apply Term.isReduced_of_hasNoZero
    rw [e.coefficients_term]
    exact e.hasNoZero_stored
  · intro tokens s s' t h
    exact LpText.exists_of_expression h

/-- What cancels out, what is too small and negative zero are not stored;
what is not a number is. -/
example :
    [Composition.sub (.weighted ⟨0, "x"⟩ 3) (.weighted ⟨0, "x"⟩ 3),
      .scale (.weighted ⟨0, "x"⟩ 1e-300) 1e-300, .setCoefficient (.single ⟨0, "x"⟩) ⟨0, "x"⟩ (-0),
      .scale (.weighted ⟨0, "x"⟩ Binary64.infinity) 0].map (fun e => e.stored.size)
      = [0, 0, 0, 1] := by
  decide +kernel

end LinearProgram
