import LinearProgram.Fingerprint
import LinearProgram.LpText.Writer
import LinearProgram.Proofs.Binary64.Comparison
import Mathlib.Data.List.Forall2

/-!
# `LinearProgram.Proofs.LpText.Equality`: equal models and their texts

Models are compared part by part, and numbers as numbers. Two numbers
that compare equal are the same double, or they are zeros with different
signs. The text of a model shows the sign of a zero where it shows a
zero at all.

* `SameButSign` is what the comparison of numbers says.
  `SameButSign.sub` says that the moving of a constant into bounds keeps
  it.
* `Term.numbers`, `Shape.numbers`, `Constraint.numbers` and
  `Model.numbers` list the numbers of which the text may show a zero, in
  the order in which it does.
* `Aligned` says of two texts that they are the same but for such
  numbers. It is kept where texts stand one behind the other
  (`Aligned.append`), so that each part of the writer has one lemma.
* `write_eq_iff_of_beq` puts these together: equal models have equal
  texts exactly if the numbers are the same, and at most signs of zeros
  differ.
-/

set_option autoImplicit false

namespace LinearProgram

open Decimal (plain)

/-! ### Numbers that compare equal -/

/-- Negative zero is neutral in front of everything. -/
theorem Binary64.neg_zero_add (x : Float) : -0 + x = x := by
  rw [add_eq_ofUnpacked, unpack_neg_zero]
  refine Eq.trans ?_ (ofUnpacked_unpack x)
  generalize x.toModel.unpack = u
  cases u with
  | notANumber => rfl
  | infinity s => rfl
  | zero s => cases s <;> rfl
  | finite s m e hm => rfl

/-- Whether two doubles are the same but for the sign of a zero. -/
def SameButSign (x y : Float) : Prop := x = y ∨ (x == 0) = true ∧ (y == 0) = true

namespace SameButSign

variable {x y z x' y' : Float}

theorem of_beq (h : (x == y) = true) : SameButSign x y := by
  obtain ⟨-, -, heq | ⟨hx, hy⟩⟩ := Binary64.beq_iff.mp h
  · exact .inl heq
  · exact .inr ⟨Binary64.beq_zero_iff.mpr hx, Binary64.beq_zero_iff.mpr hy⟩

theorem symm (h : SameButSign x y) : SameButSign y x :=
  h.elim (fun heq => .inl heq.symm) fun hzero => .inr hzero.symm

theorem trans (h : SameButSign x y) (h' : SameButSign y z) : SameButSign x z := by
  rcases h with rfl | ⟨hx, hy⟩
  · exact h'
  · rcases h' with rfl | ⟨-, hz⟩
    · exact .inr ⟨hx, hy⟩
    · exact .inr ⟨hx, hz⟩

/-- There are two zeros. -/
theorem eq_of_beq_zero (h : (x == 0) = true) : x = 0 ∨ x = -0 := by
  have hcode := Binary64.beq_zero_iff.mp h
  cases hneg : Binary64.isNegative x with
  | false => exact .inl (Binary64.ext_code hneg hcode)
  | true => exact .inr (Binary64.ext_code (hneg.trans (by decide)) (hcode.trans (by decide)))

/-- A zero that is added changes at most the sign of a zero. -/
theorem add_zero (x : Float) (h : (y == 0) = true) : SameButSign (x + y) x := by
  rcases eq_of_beq_zero h with rfl | rfl
  · by_cases hx : x = -0
    · subst hx
      exact .inr ⟨by decide, by decide⟩
    · exact .inl (Binary64.add_zero hx)
  · exact .inl (Binary64.add_neg_zero x)

theorem zero_add (x : Float) (h : (y == 0) = true) : SameButSign (y + x) x := by
  rcases eq_of_beq_zero h with rfl | rfl
  · by_cases hx : x = -0
    · subst hx
      exact .inr ⟨by decide, by decide⟩
    · exact .inl (Binary64.zero_add hx)
  · exact .inl (Binary64.neg_zero_add x)

theorem add (hx : SameButSign x x') (hy : SameButSign y y') : SameButSign (x + y) (x' + y') := by
  rcases hy with rfl | ⟨hy, hy'⟩
  · rcases hx with rfl | ⟨hx, hx'⟩
    · exact .inl rfl
    · exact (zero_add y hx).trans (zero_add y hx').symm
  · exact ((add_zero x hy).trans hx).trans (add_zero x' hy').symm

theorem neg (h : SameButSign x y) : SameButSign (-x) (-y) := by
  rcases h with rfl | ⟨hx, hy⟩
  · exact .inl rfl
  · refine .inr ⟨?_, ?_⟩ <;> rw [Binary64.beq_zero_iff, Binary64.code_neg, ← Binary64.beq_zero_iff]
    · exact hx
    · exact hy

theorem sub (hx : SameButSign x x') (hy : SameButSign y y') : SameButSign (x - y) (x' - y') := by
  rw [Binary64.sub_eq_add_neg, Binary64.sub_eq_add_neg]
  exact hx.add hy.neg

/-- Numbers other than zero are the same. -/
theorem eq_of_forall₂ {xs ys : List Float} (h : List.Forall₂ SameButSign xs ys)
    (hnonzero : ∀ x ∈ xs, (x == 0) = false) : xs = ys := by
  induction h with
  | nil => rfl
  | @cons x y xs ys hxy _ ih =>
      rw [ih fun x hx => hnonzero x (List.mem_cons_of_mem _ hx)]
      rcases hxy with rfl | ⟨hzero, -⟩
      · rfl
      · rw [hnonzero x (List.mem_cons_self ..)] at hzero
        cases hzero

end SameButSign

/-! ### Texts that are the same but for signs of zeros -/

/-- Whether two texts show numbers that are the same but for signs of
zeros, and are the same apart from these: whatever follows them, the
whole texts are the same exactly if the numbers are and what follows is. -/
structure Aligned (a b : String) (xs ys : List Float) : Prop where
  numbers : List.Forall₂ SameButSign xs ys
  cancel : ∀ r s : String, a ++ r = b ++ s ↔ xs = ys ∧ r = s

namespace Aligned

variable {a b a' b' : String} {xs ys xs' ys' : List Float} {x y : Float}

theorem same (a : String) : Aligned a a [] [] :=
  ⟨.nil, fun r s => by rw [String.append_right_inj]; exact (and_iff_right rfl).symm⟩

theorem append (h : Aligned a b xs ys) (h' : Aligned a' b' xs' ys') :
    Aligned (a ++ a') (b ++ b') (xs ++ xs') (ys ++ ys') where
  numbers := List.rel_append h.numbers h'.numbers
  cancel r s := by
    rw [String.append_assoc, String.append_assoc, h.cancel, h'.cancel, ← and_assoc]
    refine and_congr_left fun _ => ⟨fun ⟨hxs, hxs'⟩ => by rw [hxs, hxs'], fun heq => ?_⟩
    exact List.append_inj heq h.numbers.length_eq

theorem behind (h : Aligned a b xs ys) (c : String) : Aligned (a ++ c) (b ++ c) xs ys := by
  have happend := h.append (.same c)
  rwa [List.append_nil, List.append_nil] at happend

theorem ahead (h : Aligned a b xs ys) (c : String) : Aligned (c ++ a) (c ++ b) xs ys :=
  (same c).append h

/-- Zeros with different signs differ in their first character. -/
theorem zero_append_ne (r s : String) : plain 0 ++ r ≠ plain (-0) ++ s := by
  have hpositive : plain 0 = "0" := by decide +kernel
  have hnegative : plain (-0) = "-0" := by decide +kernel
  rw [hpositive, hnegative]
  intro h
  have hlist := congrArg String.toList h
  rw [String.toList_append, String.toList_append] at hlist
  exact absurd (List.cons.inj hlist).1 (by decide)

/-- Numbers that are the same but for the sign of a zero. -/
theorem number (h : SameButSign x y) : Aligned (plain x) (plain y) [x] [y] where
  numbers := .cons h .nil
  cancel r s := by
    have hsame : ∀ x : Float, plain x ++ r = plain x ++ s ↔ [x] = [x] ∧ r = s := fun x => by
      rw [String.append_right_inj]
      exact (and_iff_right rfl).symm
    have hne : [(0 : Float)] ≠ [-0] := by decide
    rcases h with rfl | ⟨hx, hy⟩
    · exact hsame x
    · rcases SameButSign.eq_of_beq_zero hx with rfl | rfl <;>
        rcases SameButSign.eq_of_beq_zero hy with rfl | rfl
      · exact hsame 0
      · exact iff_of_false (zero_append_ne r s) fun h => hne h.1
      · exact iff_of_false (zero_append_ne s r).symm fun h => hne h.1.symm
      · exact hsame (-0)

/-- Without anything behind them the texts are the same exactly if the
numbers are. -/
theorem eq_iff (h : Aligned a b xs ys) : a = b ↔ xs = ys := by
  have hcancel := h.cancel "" ""
  rwa [String.append_empty, String.append_empty, and_iff_left rfl] at hcancel

end Aligned

/-! ### Terms -/

namespace Term

variable {t u : Term Float}

/-- Whether two terms are the same but for the sign of a constant zero. -/
def SameButSigns (t u : Term Float) : Prop :=
  t.coefficients = u.coefficients ∧ SameButSign t.constant u.constant

/-- Coefficients other than zero are the same if they compare equal. -/
theorem entries_eq_of_beq {ps qs : List (Variable × Float)}
    (hnonzero : ∀ p ∈ ps, (p.2 == 0) = false) (h : (ps == qs) = true) : ps = qs := by
  induction ps generalizing qs with
  | nil =>
      cases qs with
      | nil => rfl
      | cons q qs => cases h
  | cons p ps ih =>
      cases qs with
      | nil => cases h
      | cons q qs =>
          rw [List.cons_beq_cons, Bool.and_eq_true] at h
          have hhead : (p.1 == q.1 && p.2 == q.2) = true := h.1
          rw [Bool.and_eq_true, beq_iff_eq] at hhead
          have hcoefficient : p.2 = q.2 := by
            rcases SameButSign.of_beq hhead.2 with heq | ⟨hzero, -⟩
            · exact heq
            · rw [hnonzero p (List.mem_cons_self ..)] at hzero
              cases hzero
          rw [Prod.ext hhead.1 hcoefficient,
            ih (fun p hp => hnonzero p (List.mem_cons_of_mem _ hp)) h.2]

theorem sameButSigns_of_beq (h : (t == u) = true) : t.SameButSigns u := by
  have h : (t.coefficients.toList == u.coefficients.toList && t.constant == u.constant) = true := h
  rw [Bool.and_eq_true] at h
  refine ⟨OrderedMap.ext (entries_eq_of_beq (fun p hp => ?_) h.1), .of_beq h.2⟩
  exact t.nonzero p.1 p.2 (OrderedMap.mem_toList_iff.mp hp)

/-- The numbers in the text of a term that may be zeros: only a term
without variables shows a constant that is zero. -/
def numbers (t : Term Float) : List Float := if t.isConstant then [t.constant] else []

theorem constantText_eq {c d : Float} (h : SameButSign c d) : constantText c = constantText d := by
  rcases h with rfl | ⟨hc, hd⟩
  · rfl
  · rcases SameButSign.eq_of_beq_zero hc with rfl | rfl <;>
      rcases SameButSign.eq_of_beq_zero hd with rfl | rfl <;> rfl

theorem text_of_isConstant (h : t.isConstant = true) : t.text = plain t.constant := by
  have hnil : t.coefficients.toList = [] := List.isEmpty_iff.mp h
  have hsorted : Variable.sortByName t.coefficients.toList = [] := by
    rw [hnil]
    simp [Variable.sortByName]
  rw [text, hsorted]

/-- How a term with summands is written. -/
theorem text_of_sorted {p : Variable × Float} {rest : List (Variable × Float)}
    (h : Variable.sortByName t.coefficients.toList = p :: rest) :
    t.text = firstText p.1 p.2 ++ String.join (rest.map fun q => nextText q.1 q.2)
      ++ constantText t.constant := by
  rw [text, h]

/-- Of a constant behind summands only the value counts. -/
theorem text_setConstant (h : t.isConstant = false) {c : Float} (hc : SameButSign c t.constant) :
    (t.setConstant c).text = t.text := by
  cases hsorted : Variable.sortByName t.coefficients.toList with
  | nil =>
      have hnil := (Variable.sortByName_perm t.coefficients.toList).symm
      rw [hsorted, List.perm_nil] at hnil
      rw [isConstant, OrderedMap.isEmpty, hnil] at h
      cases h
  | cons p rest =>
      have hconstant : (t.setConstant c).constant = c := rfl
      rw [text_of_sorted hsorted, text_of_sorted (t := t.setConstant c) hsorted, hconstant,
        constantText_eq hc]

theorem SameButSigns.aligned (h : t.SameButSigns u) :
    Aligned t.text u.text t.numbers u.numbers := by
  obtain ⟨hcoefficients, hconstant⟩ := h
  have hconstants : t.isConstant = u.isConstant := by rw [isConstant, hcoefficients, isConstant]
  rw [numbers, numbers, hconstants]
  cases hu : u.isConstant with
  | true =>
      rw [text_of_isConstant (hconstants.trans hu), text_of_isConstant hu]
      exact .number hconstant
  | false =>
      have ht : t = u.setConstant t.constant := by
        cases t
        cases u
        cases hcoefficients
        rfl
      have htext : t.text = u.text := by
        rw [ht, text_setConstant hu hconstant]
      rw [htext]
      exact .same _

end Term

/-! ### Constraints -/

namespace Shape

/-- Whether two shapes are the same but for signs of zero bounds. -/
inductive SameButSigns : Shape Float → Shape Float → Prop
  | left {x y : Float} (h : SameButSign x y) (relation : Relation) :
      SameButSigns (left x relation) (left y relation)
  | right (relation : Relation) {x y : Float} (h : SameButSign x y) :
      SameButSigns (right relation x) (right relation y)
  | equal {x y : Float} (h : SameButSign x y) : SameButSigns (equal x) (equal y)
  | range {x y x' y' : Float} (h : SameButSign x y) (l r : Relation) (h' : SameButSign x' y') :
      SameButSigns (range x l r x') (range y l r y')

variable {s s' : Shape Float}

theorem sameButSigns_of_beq (h : (s == s') = true) : s.SameButSigns s' := by
  cases s <;> cases s' <;> try cases h
  case left.left x r y r' =>
    have h : (x == y && r == r') = true := h
    obtain ⟨hbound, hrelation⟩ := Bool.and_eq_true_iff.mp h
    cases eq_of_beq hrelation
    exact .left (.of_beq hbound) r
  case right.right r x r' y =>
    have h : (r == r' && x == y) = true := h
    obtain ⟨hrelation, hbound⟩ := Bool.and_eq_true_iff.mp h
    cases eq_of_beq hrelation
    exact .right r (.of_beq hbound)
  case equal.equal x y => exact .equal (.of_beq h)
  case range.range x l r x' y l' r' y' =>
    have h : (x == y && (l == l' && (r == r' && x' == y'))) = true := h
    simp only [Bool.and_eq_true] at h
    obtain ⟨hlower, hl, hr, hupper⟩ := h
    cases eq_of_beq hl
    cases eq_of_beq hr
    exact .range (.of_beq hlower) l r (.of_beq hupper)

/-- The moving of a constant into the bounds keeps them the same. -/
theorem SameButSigns.normalize (h : s.SameButSigns s') {c d : Float} (hcd : SameButSign c d) :
    (s.normalize c).SameButSigns (s'.normalize d) := by
  cases h with
  | left h relation => exact .right relation.flip (h.sub hcd)
  | right relation h => exact .right relation (h.sub hcd)
  | equal h => exact .equal (h.sub hcd)
  | range h l r h' => exact .range (h.sub hcd) l r (h'.sub hcd)

/-- The numbers in the text of a shape around those of its term. -/
def numbers (inner : List Float) : Shape Float → List Float
  | left bound _ => bound :: inner
  | right _ bound => inner ++ [bound]
  | equal bound => inner ++ [bound]
  | range lower _ _ upper => lower :: inner ++ [upper]

theorem SameButSigns.aligned (h : s.SameButSigns s') {t u : String} {xs ys : List Float}
    (hterm : Aligned t u xs ys) :
    Aligned (s.text t) (s'.text u) (s.numbers xs) (s'.numbers ys) := by
  cases h with
  | left h relation =>
      exact (((Aligned.number h).behind " ").behind relation.text).behind " " |>.append hterm
  | right relation h =>
      exact ((hterm.behind " ").behind relation.text).behind " " |>.append (.number h)
  | equal h => exact (hterm.behind " = ").append (.number h)
  | range h l r h' =>
      have hlower := (((Aligned.number h).behind " ").behind l.text).behind " " |>.append hterm
      exact ((hlower.behind " ").behind r.text).behind " " |>.append (.number h')

end Shape

/-- Whether two constraints apart from their guards are the same but for
signs of zeros. -/
structure Row.SameButSigns (a b : Row Float) : Prop where
  shape : a.shape.SameButSigns b.shape
  term : a.term.SameButSigns b.term
  name : a.name = b.name

theorem Row.sameButSigns_of_beq {a b : Row Float} (h : (a == b) = true) : a.SameButSigns b := by
  have h : (a.shape == b.shape && (a.term == b.term && a.name == b.name)) = true := h
  simp only [Bool.and_eq_true] at h
  exact ⟨Shape.sameButSigns_of_beq h.1, Term.sameButSigns_of_beq h.2.1, eq_of_beq h.2.2⟩

namespace Constraint

/-- Whether two constraints, and their guards, are the same but for
signs of zeros. -/
inductive SameButSigns : Constraint Float → Constraint Float → Prop
  | plain {a b : Row Float} (h : a.SameButSigns b) : SameButSigns (plain a) (plain b)
  | guarded {g g' : Constraint Float} {a b : Row Float} (hguard : SameButSigns g g')
      (h : a.SameButSigns b) : SameButSigns (guarded g a) (guarded g' b)

variable {c d : Constraint Float}

theorem sameButSigns_of_beq (h : (c == d) = true) : c.SameButSigns d := by
  induction c generalizing d with
  | plain a =>
      cases d with
      | plain b => exact .plain (Row.sameButSigns_of_beq h)
      | guarded g' b => cases h
  | guarded g a ih =>
      cases d with
      | plain b => cases h
      | guarded g' b =>
          have h : (g == g' && a == b) = true := h
          obtain ⟨hguard, hrow⟩ := Bool.and_eq_true_iff.mp h
          exact .guarded (ih hguard) (Row.sameButSigns_of_beq hrow)

theorem SameButSigns.normalize (h : c.SameButSigns d) : c.normalize.SameButSigns d.normalize := by
  have hrow : ∀ {a b : Row Float}, a.SameButSigns b →
      Row.SameButSigns ⟨a.shape.normalize a.term.constant, a.term.setConstant 0, a.name⟩
        ⟨b.shape.normalize b.term.constant, b.term.setConstant 0, b.name⟩ := fun h =>
    ⟨h.shape.normalize h.term.2, ⟨h.term.1, .inl rfl⟩, h.name⟩
  cases h with
  | plain h => exact .plain (hrow h)
  | guarded hguard h => exact .guarded hguard (hrow h)

/-- The numbers in the text of a constraint that may be zeros. -/
def numbers : Constraint Float → List Float
  | plain row => row.shape.numbers row.term.numbers
  | guarded guard row => guard.numbers ++ row.shape.numbers row.term.numbers

/-- A guard is written in front of its row, and its numbers come first. -/
theorem SameButSigns.aligned (h : c.SameButSigns d) :
    Aligned c.text d.text c.numbers d.numbers := by
  induction h with
  | plain h =>
      rw [text, text, h.name]
      exact (h.shape.aligned h.term.aligned).ahead _
  | guarded hguard h ih =>
      rw [text, text, h.name]
      exact ((ih.ahead _).behind " -> ").append (h.shape.aligned h.term.aligned)

end Constraint

/-! ### Models -/

theorem Objective.sameButSigns_of_beq {o o' : Objective} (h : (o == o') = true) :
    o.sense = o'.sense ∧ o.term.SameButSigns o'.term := by
  have h : (decide (o.sense = o'.sense) && o.term == o'.term) = true := h
  obtain ⟨hsense, hterm⟩ := Bool.and_eq_true_iff.mp h
  exact ⟨of_decide_eq_true hsense, Term.sameButSigns_of_beq hterm⟩

/-- The numbers in the text of a model that may be zeros: those of the
objective, and of the constraints as they are written. Bounds of
variables are not among them, as variables are the same. -/
def Model.numbers (m : Model) : List Float :=
  m.objective.term.numbers ++ m.constraints.flatMap fun c => c.normalize.numbers

namespace LpText

theorem unlines_cons (line : String) (lines : List String) :
    unlines (line :: lines) = line ++ "\n" ++ unlines lines := by
  rw [unlines, List.map_cons, String.join_cons]
  rfl

theorem unlines_append (lines lines' : List String) :
    unlines (lines ++ lines') = unlines lines ++ unlines lines' := by
  rw [unlines, List.map_append, String.join_append]
  rfl

/-- The lines of constraints that compare equal. -/
theorem aligned_unlines_constraints {cs ds : List (Constraint Float)} (h : (cs == ds) = true) :
    Aligned (unlines (cs.map fun c => indented c.normalize.text))
      (unlines (ds.map fun c => indented c.normalize.text))
      (cs.flatMap fun c => c.normalize.numbers) (ds.flatMap fun c => c.normalize.numbers) := by
  induction cs generalizing ds with
  | nil =>
      cases ds with
      | nil => exact .same _
      | cons d ds => cases h
  | cons c cs ih =>
      cases ds with
      | nil => cases h
      | cons d ds =>
          rw [List.cons_beq_cons, Bool.and_eq_true] at h
          have hconstraint := (Constraint.sameButSigns_of_beq h.1).normalize.aligned
          rw [List.map_cons, List.map_cons, unlines_cons, unlines_cons, List.flatMap_cons,
            List.flatMap_cons]
          exact ((hconstraint.ahead "  ").behind "\n").append (ih h.2)

/-- The lines about single variables, and the last line. -/
def variableLines (registry : Registry) (vars : VariableSet) : List String :=
  "BOUNDS" :: (boundsLines registry vars).map indented
    ++ "BINARY" :: (namesOfKind registry vars .binary).map indented
    ++ "GENERAL" :: (namesOfKind registry vars .integer).map indented
    ++ ["END"]

theorem write_eq (registry : Registry) (m : Model) (vars : VariableSet) :
    write registry m vars
      = m.objective.sense.text ++ "\n" ++ ("  " ++ m.objective.term.text ++ "\n"
        ++ ("SUBJECT TO\n" ++ unlines (m.constraints.map fun c => indented c.normalize.text)))
        ++ unlines (variableLines registry vars) := by
  have hlines : modelLines registry m vars
      = (m.objective.sense.text :: indented m.objective.term.text :: "SUBJECT TO"
        :: m.constraints.map fun c => indented c.normalize.text)
        ++ variableLines registry vars := by
    simp only [modelLines, variableLines, List.append_assoc, List.cons_append, List.nil_append]
  rw [write, hlines, unlines_append, unlines_cons, unlines_cons, unlines_cons]
  rfl

theorem variableSet_eq_of_beq {s s' : VariableSet} (h : (s == s') = true) : s = s' := by
  have h : (s.byName.toList == s'.byName.toList) = true := h
  cases s
  cases s'
  cases OrderedMap.ext (eq_of_beq h)
  rfl

/-- Models that are equal part by part, numbers being compared as
numbers, and that have equal sets of variables, are written alike if and
only if the numbers shown are the same. These are the constant of an
objective without variables and, of each constraint as it is written, the
bounds and the constant of a term without variables, also in its guards.
They differ at most in the signs of zeros, so that they are the same if
none of them is zero. Where they are the same the key is too. -/
theorem write_eq_iff_of_beq (registry : Registry) {m m' : Model} {s s' : VariableSet}
    (hobjective : (m.objective == m'.objective) = true)
    (hconstraints : (m.constraints == m'.constraints) = true) (hvars : (s == s') = true) :
    (write registry m s = write registry m' s' ↔ m.numbers = m'.numbers)
      ∧ List.Forall₂ SameButSign m.numbers m'.numbers
      ∧ ((∀ x ∈ m.numbers, (x == 0) = false) → m.numbers = m'.numbers)
      ∧ (m.numbers = m'.numbers →
        Fingerprint.ofText (write registry m s) = Fingerprint.ofText (write registry m' s')) := by
  obtain ⟨hsense, hterm⟩ := Objective.sameButSigns_of_beq hobjective
  have haligned : Aligned (write registry m s) (write registry m' s') m.numbers m'.numbers := by
    rw [write_eq, write_eq, hsense, variableSet_eq_of_beq hvars]
    exact ((((hterm.aligned.ahead "  ").behind "\n").append
      ((aligned_unlines_constraints hconstraints).ahead "SUBJECT TO\n")).ahead _).behind _
  exact ⟨haligned.eq_iff, haligned.numbers, SameButSign.eq_of_forall₂ haligned.numbers,
    fun h => congrArg _ (haligned.eq_iff.mpr h)⟩

/-- `min x` under `x <= 3`, with one constant in the objective and one in
the constraint. -/
def offsetModel (outer inner : Float) : Model where
  objective := ⟨.minimize, (Term.ofVariable ⟨0, "x"⟩).setConstant outer⟩
  constraints := [.right ((Term.ofVariable ⟨0, "x"⟩).setConstant inner) .atMost 3]

/-- Both models are `min x` under `x <= 3`, with different zeros, and no
zero is written. -/
theorem offsetModel_write_eq :
    ((offsetModel 0 (-0)).objective == (offsetModel (-0) 0).objective) = true
      ∧ ((offsetModel 0 (-0)).constraints == (offsetModel (-0) 0).constraints) = true
      ∧ ((∅ : VariableSet) == ∅) = true
      ∧ (offsetModel 0 (-0)).objective.term.constant
        ≠ (offsetModel (-0) 0).objective.term.constant
      ∧ write ∅ (offsetModel 0 (-0)) ∅ = write ∅ (offsetModel (-0) 0) ∅ := by
  have hobjective : ((offsetModel 0 (-0)).objective == (offsetModel (-0) 0).objective) = true := by
    decide +kernel
  have hconstraints :
      ((offsetModel 0 (-0)).constraints == (offsetModel (-0) 0).constraints) = true := by
    decide +kernel
  have hvars : ((∅ : VariableSet) == ∅) = true := by decide +kernel
  have hnonzero : ∀ x ∈ (offsetModel 0 (-0)).numbers, (x == 0) = false := by decide +kernel
  obtain ⟨hwrite, -, hsame, -⟩ := write_eq_iff_of_beq ∅ hobjective hconstraints hvars
  exact ⟨hobjective, hconstraints, hvars, by decide +kernel, hwrite.mpr (hsame hnonzero)⟩

/-- An objective without variables shows the sign of a zero, and so does a
bound: equal models have two texts. -/
theorem write_ne_of_signs :
    ((⟨.minimize, .ofConstant 0⟩ : Objective) == ⟨.minimize, .ofConstant (-0)⟩) = true
      ∧ write ∅ ⟨⟨.minimize, .ofConstant 0⟩, []⟩ ∅
        ≠ write ∅ ⟨⟨.minimize, .ofConstant (-0)⟩, []⟩ ∅
      ∧ ([Constraint.right (.ofVariable ⟨0, "x"⟩) .atMost (0 : Float)]
        == [.right (.ofVariable ⟨0, "x"⟩) .atMost (-0)]) = true
      ∧ write ∅ ⟨.zero, [.right (.ofVariable ⟨0, "x"⟩) .atMost 0]⟩ ∅
        ≠ write ∅ ⟨.zero, [.right (.ofVariable ⟨0, "x"⟩) .atMost (-0)]⟩ ∅ := by
  refine ⟨by decide +kernel, by decide +kernel, by decide +kernel, by decide +kernel⟩

end LpText

end LinearProgram
