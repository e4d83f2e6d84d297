import LinearProgram.Fingerprint
import LinearProgram.Proofs.LpText.Reading.Restoration
import LinearProgram.Proofs.Model.Construction
import LinearProgram.Proofs.Model.Copies
import LinearProgram.Proofs.Solver.Admission

/-!
# `LinearProgram.Proofs.LpText.Canonical`: the text of a model does not depend on handles

A model can be built with the variables created, and the terms put
together, in any order. Two models that differ in nothing else are
copies of one another, and copies are written alike.

* `Term.IsCopy.text_eq`: summands are written in the order of their
  names. Where names are distinct this leaves no choice to the order of
  creation.
* `IsBuilt.hasDistinctTerms`: in a model whose variables can be
  collected the names in each single term are distinct, also in guards
  that the collection does not reach.
* `write_eq_of_isCopy`: copies have the same text, and the same key.
-/

set_option autoImplicit false

namespace LinearProgram

open Decimal (plain)

/-! ### Terms -/

namespace Term

variable {f : Variable → Variable} {t u : Term Float}

theorem IsCopy.hasDistinctNames (h : t.IsCopy f u)
    (hname : ∀ v ∈ t.occurring, (f v).name = v.name) (ht : t.HasDistinctNames) :
    u.HasDistinctNames := by
  intro w hw w' hw' heq
  obtain ⟨v, hv, rfl⟩ := h.mem_occurring_iff.mp hw
  obtain ⟨v', hv', rfl⟩ := h.mem_occurring_iff.mp hw'
  rw [hname v hv, hname v' hv'] at heq
  rw [ht v hv v' hv' heq]

/-- A copy has the same coefficients in the order of names. -/
theorem IsCopy.labels_eq (h : t.IsCopy f u) (hname : ∀ v ∈ t.occurring, (f v).name = v.name)
    (ht : t.HasDistinctNames) : t.labels = u.labels := by
  refine labels_eq_of_mem_iff ht (h.hasDistinctNames hname ht) fun name c => ?_
  simp only [mem_labels, h.1]
  constructor
  · rintro ⟨v, hv, hvname⟩
    exact ⟨f v, ⟨v, hv, rfl⟩, (hname v (mem_occurring.mpr ⟨c, hv⟩)).trans hvname⟩
  · rintro ⟨_, ⟨v, hv, rfl⟩, hvname⟩
    exact ⟨v, hv, (hname v (mem_occurring.mpr ⟨c, hv⟩)).symm.trans hvname⟩

/-- Nothing but the labels and the constant of a term is written. -/
theorem text_eq_of_labels (h : t.labels = u.labels) (hconstant : t.constant = u.constant) :
    t.text = u.text := by
  unfold labels at h
  unfold text
  rw [hconstant]
  generalize Variable.sortByName t.coefficients.toList = ps at h
  generalize Variable.sortByName u.coefficients.toList = qs at h
  have hnext : ∀ {ps qs : List (Variable × Float)}, ps.map label = qs.map label →
      ps.map (fun p => nextText p.1 p.2) = qs.map fun p => nextText p.1 p.2 := by
    intro ps qs h
    have hmap := congrArg (List.map fun l : String × Float => nextText ⟨0, l.1⟩ l.2) h
    rwa [List.map_map, List.map_map] at hmap
  cases ps with
  | nil =>
      cases qs with
      | nil => rfl
      | cons q qs => cases h
  | cons p ps =>
      cases qs with
      | nil => cases h
      | cons q qs =>
          obtain ⟨hhead, htail⟩ := List.cons.inj h
          obtain ⟨hfirstname, hcoefficient⟩ := Prod.mk.inj hhead
          have hfirst : firstText p.1 p.2 = firstText q.1 q.2 := by
            rw [firstText, firstText, hfirstname, hcoefficient]
          dsimp only
          rw [hfirst, hnext htail]

theorem IsCopy.text_eq (h : t.IsCopy f u) (hname : ∀ v ∈ t.occurring, (f v).name = v.name)
    (ht : t.HasDistinctNames) : t.text = u.text :=
  text_eq_of_labels (h.labels_eq hname ht) h.2

end Term

/-! ### Constraints -/

namespace Constraint

/-- Whether the names in each term, of the constraint and of its guards,
are distinct. -/
def HasDistinctTerms : Constraint Float → Prop
  | plain row => row.term.HasDistinctNames
  | guarded guard row => guard.HasDistinctTerms ∧ row.term.HasDistinctNames

variable {f : Variable → Variable} {c d : Constraint Float}

theorem IsCopy.normalize (h : c.IsCopy f d) : c.normalize.IsCopy f d.normalize := by
  have hrow : ∀ {a b : Row Float}, a.IsCopy f b →
      Row.IsCopy f ⟨a.shape.normalize a.term.constant, a.term.setConstant 0, a.name⟩
        ⟨b.shape.normalize b.term.constant, b.term.setConstant 0, b.name⟩ := by
    intro a b hab
    refine ⟨?_, ⟨hab.2.1.1, rfl⟩, hab.2.2⟩
    show a.shape.normalize a.term.constant = b.shape.normalize b.term.constant
    rw [hab.1, hab.2.1.2]
  cases c with
  | plain a =>
      cases d with
      | plain b => exact hrow h
      | guarded k b => cases h
  | guarded g a =>
      cases d with
      | plain b => cases h
      | guarded k b => exact ⟨h.1, hrow h.2⟩

theorem HasDistinctTerms.normalize (h : c.HasDistinctTerms) : c.normalize.HasDistinctTerms := by
  cases c with
  | plain row => exact h
  | guarded guard row => exact h

/-- Copies are written alike. The induction is on the guards. -/
theorem IsCopy.text_eq (h : c.IsCopy f d) (hname : ∀ v, c.Occurs v → (f v).name = v.name)
    (hc : c.HasDistinctTerms) : c.text = d.text := by
  have hrow : ∀ {a b : Row Float}, a.IsCopy f b →
      (∀ v ∈ a.term.occurring, (f v).name = v.name) → a.term.HasDistinctNames →
        a.name = b.name ∧ a.shape.text a.term.text = b.shape.text b.term.text := by
    intro a b hab hname ha
    exact ⟨hab.2.2, by rw [hab.1, hab.2.1.text_eq hname ha]⟩
  induction c generalizing d with
  | plain a =>
      cases d with
      | guarded k b => cases h
      | plain b =>
          obtain ⟨hlabel, hbody⟩ := hrow h hname hc
          rw [text, text, hlabel, hbody]
  | guarded g a ih =>
      cases d with
      | plain b => cases h
      | guarded k b =>
          obtain ⟨hlabel, hbody⟩ := hrow h.2 (fun v hv => hname v (.inl hv)) hc.2
          rw [text, text, hlabel, hbody, ih h.1 (fun v hv => hname v (.inr hv)) hc.1]

/-- A guard tests one variable, so no two names can meet in it. -/
theorem IsSwitch.hasDistinctNames (h : c.IsSwitch) : c.term.HasDistinctNames := by
  obtain ⟨-, v, hv⟩ := h
  intro w hw w' hw' _
  rw [LpText.occurring_of_loneVariable? hv, List.mem_singleton] at hw hw'
  rw [hw, hw']

/-- Where the constructors have made a constraint, only the names in its
own term have to be looked at. -/
theorem IsBuilt.hasDistinctTerms (h : c.IsBuilt) (hterm : c.term.HasDistinctNames) :
    c.HasDistinctTerms := by
  induction c with
  | plain row => exact hterm
  | guarded guard row ih => exact ⟨ih h.1 h.2.1.hasDistinctNames, hterm⟩

theorem IsCopy.occursShallow_iff (h : c.IsCopy f d) {w : Variable} :
    d.OccursShallow w ↔ ∃ v, c.OccursShallow v ∧ f v = w := by
  have hor : ∀ {t u t' u' : Term Float}, t.IsCopy f u → t'.IsCopy f u' →
      ((w ∈ u.occurring ∨ w ∈ u'.occurring)
        ↔ ∃ v, (v ∈ t.occurring ∨ v ∈ t'.occurring) ∧ f v = w) := by
    intro t u t' u' h h'
    rw [h.mem_occurring_iff, h'.mem_occurring_iff]
    constructor
    · rintro (⟨v, hv, hw⟩ | ⟨v, hv, hw⟩)
      · exact ⟨v, .inl hv, hw⟩
      · exact ⟨v, .inr hv, hw⟩
    · rintro ⟨v, hv | hv, hw⟩
      · exact .inl ⟨v, hv, hw⟩
      · exact .inr ⟨v, hv, hw⟩
  cases c with
  | plain a =>
      cases d with
      | guarded k b => cases h
      | plain b =>
          have hterm : Term.IsCopy f (plain a).term (plain b).term := h.2.1
          simpa only [OccursShallow, guard, reduceCtorEq, false_and, exists_false, or_false]
            using hterm.mem_occurring_iff
  | guarded g a =>
      cases d with
      | plain b => cases h
      | guarded k b =>
          have hguard : g.term.IsCopy f k.term := h.1.term
          have hterm : Term.IsCopy f (guarded g a).term (guarded k b).term := h.2.2.1
          simpa only [OccursShallow, guard, Option.some.injEq, exists_eq_left']
            using hor hterm hguard

end Constraint

/-! ### Models -/

namespace Model.IsCopy

variable {f : Variable → Variable} {m m' : Model}

theorem occursShallow_iff (h : m.IsCopy f m') {w : Variable} :
    m'.OccursShallow w ↔ ∃ v, m.OccursShallow v ∧ f v = w := by
  have hconstraints : (∃ d ∈ m'.constraints, d.OccursShallow w)
      ↔ ∃ v, (∃ c ∈ m.constraints, c.OccursShallow v) ∧ f v = w := by
    have hall := h.constraints
    generalize m.constraints = cs at hall
    generalize m'.constraints = ds at hall
    induction hall with
    | nil => simp
    | cons hcd _ ih =>
        simp only [List.mem_cons, exists_eq_or_imp, ih, hcd.occursShallow_iff]
        constructor
        · rintro (⟨v, hv, hw⟩ | ⟨v, hv, hw⟩)
          · exact ⟨v, .inl hv, hw⟩
          · exact ⟨v, .inr hv, hw⟩
        · rintro ⟨v, hv | hv, hw⟩
          · exact .inl ⟨v, hv, hw⟩
          · exact .inr ⟨v, hv, hw⟩
  unfold OccursShallow
  rw [hconstraints, h.objective.mem_occurring_iff]
  constructor
  · rintro (⟨v, hv, hw⟩ | ⟨v, hv, hw⟩)
    · exact ⟨v, .inl hv, hw⟩
    · exact ⟨v, .inr hv, hw⟩
  · rintro ⟨v, hv | hv, hw⟩
    · exact .inl ⟨v, hv, hw⟩
    · exact .inr ⟨v, hv, hw⟩

/-- A copy of a model whose variables can be collected is such a model. -/
theorem exists_variableSet (h : m.IsCopy f m') {s : VariableSet} (hs : m.variableSet = .ok s)
    (hname : ∀ v, m.OccursShallow v → (f v).name = v.name) :
    ∃ s', m'.variableSet = .ok s' ∧ ∀ w, w ∈ s' ↔ ∃ v ∈ s, f v = w := by
  have hdistinct : m'.HasDistinctNames := by
    intro w w' hw hw' heq
    obtain ⟨v, hv, rfl⟩ := h.occursShallow_iff.mp hw
    obtain ⟨v', hv', rfl⟩ := h.occursShallow_iff.mp hw'
    rw [hname v hv, hname v' hv'] at heq
    rw [m.exists_variableSet_iff.mp ⟨s, hs⟩ v v' hv hv' heq]
  obtain ⟨s', hs'⟩ := m'.exists_variableSet_iff.mpr hdistinct
  refine ⟨s', hs', fun w => ?_⟩
  simp only [Model.mem_variableSet_iff hs', Model.mem_variableSet_iff hs, h.occursShallow_iff]

/-- The lines of the constraints of a copy. -/
theorem constraintLines_eq (h : m.IsCopy f m')
    (hname : ∀ v, m.Occurs v → (f v).name = v.name)
    (hterms : ∀ c ∈ m.constraints, c.HasDistinctTerms) :
    m.constraints.map (fun c => LpText.indented c.normalize.text)
      = m'.constraints.map fun c => LpText.indented c.normalize.text := by
  have hname : ∀ c ∈ m.constraints, ∀ v, c.Occurs v → (f v).name = v.name :=
    fun c hc v hv => hname v (.inr ⟨c, hc, hv⟩)
  have hall := h.constraints
  generalize m.constraints = cs at hall hterms hname
  generalize m'.constraints = ds at hall
  induction hall with
  | nil => rfl
  | @cons c d cs ds hcd _ ih =>
      have hc := List.mem_cons_self (a := c) (l := cs)
      have hhead : c.normalize.text = d.normalize.text :=
        hcd.normalize.text_eq (fun v hv => hname c hc v (Constraint.occurs_normalize.mp hv))
          (hterms c hc).normalize
      rw [List.map_cons, List.map_cons, hhead,
        ih (fun c hc => hterms c (List.mem_cons_of_mem _ hc))
          fun c hc => hname c (List.mem_cons_of_mem _ hc)]

end Model.IsCopy

namespace LpText

/-! ### Texts -/

/-- What is listed of the variables in the order of names does not
depend on the handles. -/
theorem filterMap_renamed {α : Type} {f : Variable → Variable} {s s' : VariableSet}
    {g g' : Variable → Option α} (hmem : ∀ w, w ∈ s' ↔ ∃ v ∈ s, f v = w)
    (hname : ∀ v ∈ s, (f v).name = v.name) (hsame : ∀ v ∈ s, g v = g' (f v)) :
    s.toList.filterMap g = s'.toList.filterMap g' := by
  have hget : ∀ {s : VariableSet} {name : String} {v : Variable},
      s.get? name = some v → v ∈ s ∧ v.name = name := by
    intro s name v hv
    have hkeyed := s.keyed name v hv
    rw [VariableSet.mem_iff, hkeyed]
    exact ⟨hv, rfl⟩
  refine filterMap_toList_eq fun name => ?_
  cases hv : s.get? name with
  | some v =>
      obtain ⟨hvmem, rfl⟩ := hget hv
      have hw : s'.get? (f v).name = some (f v) :=
        VariableSet.mem_iff.mp ((hmem _).mpr ⟨v, hvmem, rfl⟩)
      rw [hname v hvmem] at hw
      rw [hw]
      exact hsame v hvmem
  | none =>
      cases hw : s'.get? name with
      | none => rfl
      | some w =>
          -- The variable that corresponds to it is in the first set.
          obtain ⟨hwmem, rfl⟩ := hget hw
          obtain ⟨v, hvmem, rfl⟩ := (hmem w).mp hwmem
          rw [hname v hvmem, VariableSet.mem_iff.mp hvmem] at hv
          cases hv

/-- Two models that correspond under a bijection of their variables that
keeps names, kinds and bounds are written in one text and filed under
one key. Neither the order in which the variables were created nor the
one in which the summands were put together is left in it. -/
theorem write_eq_of_isCopy {f : Variable → Variable} {r r' : Registry} {m m' : Model}
    {s : VariableSet} (hs : m.variableSet = .ok s) (hbuilt : ∀ c ∈ m.constraints, c.IsBuilt)
    (hf : IsRenaming f m.Occurs m'.Occurs) (h : m.IsCopy f m')
    (hvalues : ∀ v ∈ s, HasValues (r'.attributes (f v)) (r.attributes v)) :
    ∃ s', m'.variableSet = .ok s' ∧ write r' m' s' = write r m s
      ∧ Fingerprint.ofText (write r' m' s') = Fingerprint.ofText (write r m s) := by
  have hshallow : ∀ v, m.OccursShallow v → (f v).name = v.name := fun v hv => hf.name v hv.occurs
  have hknown : ∀ v ∈ s, (f v).name = v.name :=
    fun v hv => hshallow v ((Model.mem_variableSet_iff hs v).mp hv)
  obtain ⟨s', hs', hmem⟩ := h.exists_variableSet hs hshallow
  have hdistinct := m.exists_variableSet_iff.mp ⟨s, hs⟩
  have hobjective : m.objective.term.text = m'.objective.term.text :=
    h.objective.text_eq (fun v hv => hf.name v (.inl hv))
      fun v hv w hw => hdistinct v w (.inl hv) (.inl hw)
  have hterms : ∀ c ∈ m.constraints, c.HasDistinctTerms := fun c hc =>
    (hbuilt c hc).hasDistinctTerms fun v hv w hw =>
      hdistinct v w (.inr ⟨c, hc, .inl hv⟩) (.inr ⟨c, hc, .inl hw⟩)
  have hbounds : boundsLines r s = boundsLines r' s' := by
    refine filterMap_renamed hmem hknown fun v hv => ?_
    rw [hknown v hv, (hvalues v hv).lower, (hvalues v hv).upper]
  have hkinds : ∀ kind, namesOfKind r s kind = namesOfKind r' s' kind := by
    intro kind
    rw [namesOfKind_eq, namesOfKind_eq]
    refine filterMap_renamed hmem hknown fun v hv => ?_
    rw [hknown v hv, (hvalues v hv).kind]
  have htext : write r' m' s' = write r m s := by
    simp only [write, modelLines, h.sense, hobjective, h.constraintLines_eq hf.name hterms, hbounds,
      hkinds]
  exact ⟨s', hs', htext, congrArg Fingerprint.ofText htext⟩

/-- A profit that some work brings, where the product `y` needs the
licence `b`. -/
def licensedProfit (profit work : Term Float) (y b : Variable) : Model :=
  ⟨⟨.maximize, profit⟩,
    [.plain ⟨.right .atMost 8, work, some "work"⟩,
      .guarded (.right (.ofVariable b) .equal 0) ⟨.right .atMost 0, .ofVariable y, none⟩]⟩

theorem occurs_licensedProfit {profit work : Term Float} {y b v : Variable} :
    (licensedProfit profit work y b).Occurs v
      ↔ v ∈ profit.occurring ∨ v ∈ work.occurring ∨ v = y ∨ v = b := by
  have hlone : ∀ w : Variable, v ∈ (Term.ofVariable (K := Float) w).occurring ↔ v = w :=
    fun w => List.mem_singleton
  have hguard : (Constraint.right (Term.ofVariable (K := Float) b) .equal 0).Occurs v ↔ v = b :=
    hlone b
  simp only [licensedProfit, Model.Occurs, List.mem_cons, List.not_mem_nil, or_false,
    exists_eq_or_imp, exists_eq_left, Constraint.Occurs, hguard, hlone y]

theorem isBuilt_licensedProfit {profit work : Term Float} {y b : Variable} :
    ∀ c ∈ (licensedProfit profit work y b).constraints, c.IsBuilt := by
  have hzero : Constraint.switchValue? (.equal (0 : Float)) = some 0 := by decide +kernel
  have hlone : Constraint.loneVariable? (.ofVariable (K := Float) b) = some b :=
    if_pos (by decide : ((0 : Float) == 0 && (1 : Float) == 1) = true)
  intro c hc
  rcases List.mem_cons.mp hc with rfl | hc
  · exact (nofun : Relation.atMost ≠ .equal)
  · rw [List.mem_singleton.mp hc]
    exact ⟨trivial, ⟨⟨0, hzero⟩, b, hlone⟩, nofun⟩

theorem isCopy_licensedProfit {f : Variable → Variable} {profit work profit' work' : Term Float}
    {y b : Variable} (hprofit : profit.IsCopy f profit') (hwork : work.IsCopy f work') :
    (licensedProfit profit work y b).IsCopy f (licensedProfit profit' work' (f y) (f b)) := by
  have hlone : ∀ v, Term.IsCopy f (.ofVariable v) (.ofVariable (f v)) :=
    fun v => Term.isCopy_of_perm (.refl _) rfl
  exact ⟨rfl, hprofit, .cons ⟨rfl, hwork, rfl⟩ (.cons ⟨⟨rfl, hlone b, rfl⟩, rfl, hlone y, rfl⟩ .nil)⟩

/-- One profit in two orders of creation: `x`, `y` and `b`, where `x`
comes first in each term, and `b`, `y` and `x`, where `y` does. -/
theorem write_licensedProfit :
    ∃ m m' s s', m = licensedProfit (.weighted ⟨0, "x"⟩ 2 + .weighted ⟨1, "y"⟩ 3)
        (.ofVariable ⟨0, "x"⟩ + .weighted ⟨1, "y"⟩ (-1)) ⟨1, "y"⟩ ⟨2, "b"⟩
      ∧ m' = licensedProfit (.weighted ⟨1, "y"⟩ 3 + .weighted ⟨2, "x"⟩ 2)
        (.weighted ⟨1, "y"⟩ (-1) + .ofVariable ⟨2, "x"⟩) ⟨1, "y"⟩ ⟨0, "b"⟩
      ∧ m.variableSet = .ok s ∧ m'.variableSet = .ok s'
      ∧ write ⟨#[.binary, .bounded .integer 0 10, .bounded .real (-5) 5]⟩ m' s'
        = write ⟨#[.bounded .real (-5) 5, .bounded .integer 0 10, .binary]⟩ m s := by
  obtain ⟨m, hm⟩ : ∃ m, m = licensedProfit (.weighted ⟨0, "x"⟩ 2 + .weighted ⟨1, "y"⟩ 3)
    (.ofVariable ⟨0, "x"⟩ + .weighted ⟨1, "y"⟩ (-1)) ⟨1, "y"⟩ ⟨2, "b"⟩ := ⟨_, rfl⟩
  obtain ⟨m', hm'⟩ : ∃ m', m' = licensedProfit (.weighted ⟨1, "y"⟩ 3 + .weighted ⟨2, "x"⟩ 2)
    (.weighted ⟨1, "y"⟩ (-1) + .ofVariable ⟨2, "x"⟩) ⟨1, "y"⟩ ⟨0, "b"⟩ := ⟨_, rfl⟩
  have hcopy : m.IsCopy (fun v => ⟨2 - v.id, v.name⟩) m' := by
    rw [hm, hm']
    exact isCopy_licensedProfit (Term.isCopy_of_perm (by decide +kernel) (by decide +kernel))
      (Term.isCopy_of_perm (by decide +kernel) (by decide +kernel))
  have hoccurs : ∀ v, m.Occurs v ↔ v = ⟨0, "x"⟩ ∨ v = ⟨1, "y"⟩ ∨ v = ⟨2, "b"⟩ := by
    intro v
    rw [hm, occurs_licensedProfit,
      show Term.occurring _ = [⟨0, "x"⟩, ⟨1, "y"⟩] by decide +kernel,
      show Term.occurring _ = [⟨0, "x"⟩, ⟨1, "y"⟩] by decide +kernel]
    simp only [List.mem_cons, List.not_mem_nil, or_false]
    tauto
  have hoccurs' : ∀ v, m'.Occurs v ↔ v = ⟨2, "x"⟩ ∨ v = ⟨1, "y"⟩ ∨ v = ⟨0, "b"⟩ := by
    intro v
    rw [hm', occurs_licensedProfit,
      show Term.occurring _ = [⟨1, "y"⟩, ⟨2, "x"⟩] by decide +kernel,
      show Term.occurring _ = [⟨1, "y"⟩, ⟨2, "x"⟩] by decide +kernel]
    simp only [List.mem_cons, List.not_mem_nil, or_false]
    tauto
  have hf : IsRenaming (fun v => ⟨2 - v.id, v.name⟩) m.Occurs m'.Occurs := by
    refine ⟨fun v _ => rfl, fun v w hv hw heq => ?_, fun w => ?_⟩
    · obtain ⟨hid, hname⟩ := Variable.mk.inj heq
      rcases (hoccurs v).mp hv with rfl | rfl | rfl <;>
        rcases (hoccurs w).mp hw with rfl | rfl | rfl <;> simp_all
    · simp only [hoccurs', hoccurs, or_and_right, exists_or, exists_eq_left]
      simp only [eq_comm]
  obtain ⟨s, hs⟩ : ∃ s, m.variableSet = .ok s := by
    rw [hm]
    exact ⟨_, rfl⟩
  have hbuilt : ∀ c ∈ m.constraints, c.IsBuilt := by
    rw [hm]
    exact isBuilt_licensedProfit
  have hvalues : ∀ v ∈ s, HasValues
      (Registry.attributes ⟨#[.binary, .bounded .integer 0 10, .bounded .real (-5) 5]⟩
        ⟨2 - v.id, v.name⟩)
      (Registry.attributes ⟨#[.bounded .real (-5) 5, .bounded .integer 0 10, .binary]⟩ v) := by
    intro v hv
    rcases (hoccurs v).mp ((Model.mem_variableSet_iff hs v).mp hv).occurs with rfl | rfl | rfl
    · exact ⟨rfl, rfl, rfl⟩
    · exact ⟨rfl, rfl, rfl⟩
    · exact ⟨rfl, rfl, rfl⟩
  obtain ⟨s', hs', htext, _⟩ := write_eq_of_isCopy hs hbuilt hf hcopy hvalues
  exact ⟨m, m', s, s', hm, hm', hs, hs', htext⟩

end LpText

end LinearProgram
