import LinearProgram.Proofs.Binary64.Comparison
import LinearProgram.Proofs.Model.Occurrence
import Mathlib.Data.List.Forall2

/-!
# `LinearProgram.Proofs.Model.Renaming`: models that differ in their handles only

A text knows variables by their names, so a model and what is read of
it, or two models of one text, have different handles. They are the same
model if a map between the handles keeps the names and takes one to the
other.

* `IsRenaming` says of such a map that it keeps names and is a bijection.
* `Term.IsImage`, `Constraint.IsImage` and `Model.IsImage` say that the
  map takes one term, constraint, model to another: coefficients and
  bounds are the very same doubles, constants of terms are equal as
  numbers. Constraints are compared in their normal form.
* `Attributes.SameDomain` compares kinds and, as numbers, bounds.
* Numbers for variables, sorted by name and without their handles, ascend
  and are known from their members if no two variables share a name
  (`Term.label_sortByName_ascending`, `Term.eq_of_mem_iff`).
* `Term.IsAlike`, `Constraint.IsAlike`: equality up to handles without
  a map, summand by summand in the order of names. `IsAlike.isImage`
  turns it into the image under any map that respects names.
-/

set_option autoImplicit false

namespace LinearProgram

/-- A map from some variables onto others that keeps the names and does
not identify any two. -/
structure IsRenaming (f : Variable → Variable) (source target : Variable → Prop) : Prop where
  name : ∀ v, source v → (f v).name = v.name
  injective : ∀ v w, source v → source w → f v = f w → v = w
  onto : ∀ w, target w ↔ ∃ v, source v ∧ f v = w

/-- Whether two variables admit the same values. -/
def Attributes.SameDomain (a b : Attributes) : Prop :=
  a.kind = b.kind ∧ (a.lower == b.lower) = true ∧ (a.upper == b.upper) = true

/-- Whether the second term is the first one under a map of variables. -/
def Term.IsImage (f : Variable → Variable) (t u : Term Float) : Prop :=
  (∀ w c, u.coefficients.get? w = some c ↔ ∃ v, t.coefficients.get? v = some c ∧ f v = w)
    ∧ (t.constant == u.constant) = true

/-- Whether the second row is the first one under a map of variables. -/
def Row.IsImage (f : Variable → Variable) (a b : Row Float) : Prop :=
  a.shape = b.shape ∧ a.term.IsImage f b.term ∧ a.name = b.name

/-- Whether the second constraint is the first one under a map of
variables, guards included. -/
def Constraint.IsImage (f : Variable → Variable) : Constraint Float → Constraint Float → Prop
  | plain a, plain b => a.IsImage f b
  | guarded g a, guarded h b => g.IsImage f h ∧ a.IsImage f b
  | _, _ => False

/-- Whether the second model is the first one under a map of variables,
constraint by constraint in normal form. -/
structure Model.IsImage (f : Variable → Variable) (m m' : Model) : Prop where
  sense : m.objective.sense = m'.objective.sense
  objective : m.objective.term.IsImage f m'.objective.term
  constraints : List.Forall₂ (fun c d => c.normalize.IsImage f d.normalize)
    m.constraints m'.constraints

/-! ### Summands by name -/

namespace Term

/-- The name and the coefficient of a summand. -/
def label (p : Variable × Float) : String × Float := (p.1.name, p.2)

/-- The summands of a term by name, without their handles. -/
def labels (t : Term Float) : List (String × Float) :=
  (Variable.sortByName t.coefficients.toList).map label

/-- Whether two terms are equal up to their handles. -/
def IsAlike (t u : Term Float) : Prop :=
  t.labels = u.labels ∧ (t.constant == u.constant) = true

theorem mem_label_sortByName {m : Valuation Float} {name : String} {c : Float} :
    (name, c) ∈ (Variable.sortByName m.toList).map label
      ↔ ∃ v, m.get? v = some c ∧ v.name = name := by
  rw [List.mem_map]
  constructor
  · rintro ⟨⟨v, d⟩, hmem, heq⟩
    cases heq
    rw [(Variable.sortByName_perm _).mem_iff, OrderedMap.mem_toList_iff] at hmem
    exact ⟨v, hmem, rfl⟩
  · rintro ⟨v, hget, rfl⟩
    refine ⟨(v, c), ?_, rfl⟩
    rw [(Variable.sortByName_perm _).mem_iff, OrderedMap.mem_toList_iff]
    exact hget

theorem mem_labels {t : Term Float} {name : String} {c : Float} :
    (name, c) ∈ t.labels ↔ ∃ v, t.coefficients.get? v = some c ∧ v.name = name :=
  mem_label_sortByName

theorem mem_keys {m : Valuation Float} {v : Variable} :
    v ∈ m.keys ↔ ∃ c, m.get? v = some c := by
  rw [OrderedMap.keys, List.mem_map]
  constructor
  · rintro ⟨⟨w, c⟩, hmem, rfl⟩
    exact ⟨c, OrderedMap.mem_toList_iff.mp hmem⟩
  · rintro ⟨c, hget⟩
    exact ⟨(v, c), OrderedMap.mem_toList_iff.mpr hget, rfl⟩

theorem mem_occurring {t : Term Float} {v : Variable} :
    v ∈ t.occurring ↔ ∃ c, t.coefficients.get? v = some c := mem_keys

/-- Whether no two variables of a term share a name. -/
def HasDistinctNames (t : Term Float) : Prop :=
  ∀ v ∈ t.occurring, ∀ w ∈ t.occurring, v.name = w.name → v = w

/-- Sorted numbers for variables ascend by name, if no two variables share
one. -/
theorem label_sortByName_ascending {m : Valuation Float}
    (h : ∀ v ∈ m.keys, ∀ w ∈ m.keys, v.name = w.name → v = w) :
    ((Variable.sortByName m.toList).map label).Pairwise fun a b => a.1 < b.1 := by
  have hsorted : (Variable.sortByName m.toList).Pairwise fun p q => p.1.name ≤ q.1.name := by
    have hle : (Variable.sortByName m.toList).Pairwise
        fun p q => decide (p.1.name ≤ q.1.name) = true := by
      refine List.pairwise_mergeSort (fun a b c hab hbc => ?_) (fun a b => ?_) _
      · rw [decide_eq_true_eq] at *
        exact String.le_trans hab hbc
      · rw [Bool.or_eq_true, decide_eq_true_eq, decide_eq_true_eq]
        exact String.le_total a.1.name b.1.name
    exact hle.imp fun hpq => of_decide_eq_true hpq
  have hdistinct : (Variable.sortByName m.toList).Pairwise fun p q => p.1.name ≠ q.1.name := by
    rw [(Variable.sortByName_perm m.toList).pairwise_iff (fun hpq => Ne.symm hpq)]
    refine m.ascending.imp_of_mem fun {p q} hp hq hlt hname => ?_
    have heq := h p.1 (List.mem_map_of_mem hp) q.1 (List.mem_map_of_mem hq) hname
    rw [heq] at hlt
    exact StrictKey.irrefl _ hlt
  rw [List.pairwise_map]
  refine (hsorted.and hdistinct).imp fun {p q} hpq => ?_
  rcases StrictKey.trichotomy p.1.name q.1.name with hlt | heq | hgt
  · exact hlt
  · exact absurd heq hpq.2
  · exact absurd hgt (String.not_lt.mpr hpq.1)

/-- Lists of names that ascend are equal if they have the same members. -/
theorem eq_of_mem_iff {l l' : List (String × Float)} (hl : l.Pairwise fun a b => a.1 < b.1)
    (hl' : l'.Pairwise fun a b => a.1 < b.1) (h : ∀ name c, (name, c) ∈ l ↔ (name, c) ∈ l') :
    l = l' := by
  have hmap : (⟨l, hl⟩ : OrderedMap String Float) = ⟨l', hl'⟩ := by
    refine OrderedMap.ext_get? fun name => Option.ext fun c => ?_
    rw [← OrderedMap.mem_toList_iff, ← OrderedMap.mem_toList_iff]
    exact h name c
  exact congrArg OrderedMap.toList hmap

/-- Where names are distinct, the summands are in the order of names. -/
theorem labels_ascending {t : Term Float} (h : t.HasDistinctNames) :
    t.labels.Pairwise fun a b => a.1 < b.1 := label_sortByName_ascending h

/-- Where names are distinct, a term is known by name from its members. -/
theorem labels_eq_of_mem_iff {t u : Term Float} (ht : t.HasDistinctNames) (hu : u.HasDistinctNames)
    (h : ∀ name c, (name, c) ∈ t.labels ↔ (name, c) ∈ u.labels) : t.labels = u.labels :=
  eq_of_mem_iff (labels_ascending ht) (labels_ascending hu) h

/-- Alike terms have variables of the same names. -/
theorem IsAlike.exists_name {t u : Term Float} (h : t.IsAlike u) {v : Variable}
    (hv : v ∈ t.occurring) : ∃ w ∈ u.occurring, w.name = v.name := by
  obtain ⟨c, hget⟩ := mem_occurring.mp hv
  have hmem : (v.name, c) ∈ u.labels := h.1 ▸ mem_labels.mpr ⟨v, hget, rfl⟩
  obtain ⟨w, hw, hname⟩ := mem_labels.mp hmem
  exact ⟨w, mem_occurring.mpr ⟨c, hw⟩, hname⟩

/-- A map that sends each variable of one term to the one of its name in
the other takes the first of two alike terms to the second. -/
theorem IsAlike.isImage {f : Variable → Variable} {t u : Term Float} (h : t.IsAlike u)
    (hf : ∀ v ∈ t.occurring, ∀ w ∈ u.occurring, w.name = v.name → f v = w) : t.IsImage f u := by
  refine ⟨fun w c => ⟨fun hw => ?_, ?_⟩, h.2⟩
  · have hmem : (w.name, c) ∈ t.labels := h.1 ▸ mem_labels.mpr ⟨w, hw, rfl⟩
    obtain ⟨v, hv, hname⟩ := mem_labels.mp hmem
    exact ⟨v, hv, hf v (mem_occurring.mpr ⟨c, hv⟩) w (mem_occurring.mpr ⟨c, hw⟩) hname.symm⟩
  · rintro ⟨v, hv, rfl⟩
    have hmem : (v.name, c) ∈ u.labels := h.1 ▸ mem_labels.mpr ⟨v, hv, rfl⟩
    obtain ⟨w, hw, hname⟩ := mem_labels.mp hmem
    have heq := hf v (mem_occurring.mpr ⟨c, hv⟩) w (mem_occurring.mpr ⟨c, hw⟩) hname
    rw [heq]
    exact hw

theorem beq_symm {x y : Float} (h : (x == y) = true) : (y == x) = true := by
  obtain ⟨hx, hy, heq⟩ := Binary64.beq_iff.mp h
  refine Binary64.beq_iff.mpr ⟨hy, hx, ?_⟩
  rcases heq with heq | ⟨hx0, hy0⟩
  · exact .inl heq.symm
  · exact .inr ⟨hy0, hx0⟩

theorem IsAlike.symm {t u : Term Float} (h : t.IsAlike u) : u.IsAlike t :=
  ⟨h.1.symm, beq_symm h.2⟩

end Term

/-- Whether two rows are equal up to their handles. -/
def Row.IsAlike (a b : Row Float) : Prop :=
  a.shape = b.shape ∧ a.term.IsAlike b.term ∧ a.name = b.name

theorem Row.IsAlike.symm {a b : Row Float} (h : a.IsAlike b) : b.IsAlike a :=
  ⟨h.1.symm, h.2.1.symm, h.2.2.symm⟩

namespace Constraint

/-- Whether two constraints are equal up to their handles. -/
def IsAlike : Constraint Float → Constraint Float → Prop
  | plain a, plain b => a.IsAlike b
  | guarded g a, guarded h b => g.IsAlike h ∧ a.IsAlike b
  | _, _ => False

theorem IsAlike.term {c d : Constraint Float} (h : c.IsAlike d) : c.term.IsAlike d.term := by
  cases c with
  | plain a =>
      cases d with
      | plain b => exact h.2.1
      | guarded k b => cases h
  | guarded g a =>
      cases d with
      | plain b => cases h
      | guarded k b => exact h.2.2.1

/-- Alike constraints have variables of the same names. -/
theorem IsAlike.exists_name {c d : Constraint Float} (h : c.IsAlike d) {v : Variable}
    (hv : c.Occurs v) : ∃ w, d.Occurs w ∧ w.name = v.name := by
  induction c generalizing d with
  | plain a =>
      cases d with
      | plain b => exact h.2.1.exists_name hv
      | guarded k b => cases h
  | guarded g a ih =>
      cases d with
      | plain b => cases h
      | guarded k b =>
          rcases hv with hv | hv
          · obtain ⟨w, hw, hname⟩ := h.2.2.1.exists_name hv
            exact ⟨w, .inl hw, hname⟩
          · obtain ⟨w, hw, hname⟩ := ih h.1 hv
            exact ⟨w, .inr hw, hname⟩

theorem IsAlike.isImage {f : Variable → Variable} {c d : Constraint Float} (h : c.IsAlike d)
    (hf : ∀ v, c.Occurs v → ∀ w, d.Occurs w → w.name = v.name → f v = w) : c.IsImage f d := by
  induction c generalizing d with
  | plain a =>
      cases d with
      | plain b => exact ⟨h.1, h.2.1.isImage hf, h.2.2⟩
      | guarded k b => cases h
  | guarded g a ih =>
      cases d with
      | plain b => cases h
      | guarded k b =>
          refine ⟨ih h.1 fun v hv w hw => hf v (.inr hv) w (.inr hw), h.2.1, ?_, h.2.2.2⟩
          exact h.2.2.1.isImage fun v hv w hw => hf v (.inl hv) w (.inl hw)

/-- Alike constraints register variables of the same names. -/
theorem IsAlike.exists_name_shallow {c d : Constraint Float} (h : c.IsAlike d) {v : Variable}
    (hv : c.OccursShallow v) : ∃ w, d.OccursShallow w ∧ w.name = v.name := by
  cases c with
  | plain a =>
      cases d with
      | plain b =>
          rcases hv with hv | ⟨guard, hguard, _⟩
          · obtain ⟨w, hw, hname⟩ := h.2.1.exists_name hv
            exact ⟨w, .inl hw, hname⟩
          · cases hguard
      | guarded k b => cases h
  | guarded g a =>
      cases d with
      | plain b => cases h
      | guarded k b =>
          rcases hv with hv | ⟨guard, hguard, hv⟩
          · obtain ⟨w, hw, hname⟩ := h.2.2.1.exists_name hv
            exact ⟨w, .inl hw, hname⟩
          · cases hguard
            have hterm : g.term.IsAlike k.term := h.1.term
            obtain ⟨w, hw, hname⟩ := hterm.exists_name hv
            exact ⟨w, .inr ⟨k, rfl, hw⟩, hname⟩

theorem IsAlike.symm {c d : Constraint Float} (h : c.IsAlike d) : d.IsAlike c := by
  induction c generalizing d with
  | plain a =>
      cases d with
      | plain b => exact Row.IsAlike.symm h
      | guarded k b => cases h
  | guarded g a ih =>
      cases d with
      | plain b => cases h
      | guarded k b => exact ⟨ih h.1, h.2.symm⟩

end Constraint

/-! ### Models by name -/

/-- Whether two models are equal up to their handles, constraint by
constraint in normal form. -/
structure Model.IsAlike (m m' : Model) : Prop where
  sense : m.objective.sense = m'.objective.sense
  objective : m.objective.term.IsAlike m'.objective.term
  constraints : List.Forall₂ (fun c d => c.normalize.IsAlike d.normalize)
    m.constraints m'.constraints

namespace Model.IsAlike

variable {m m' : Model}

theorem symm (h : m.IsAlike m') : m'.IsAlike m :=
  ⟨h.sense.symm, h.objective.symm, h.constraints.flip.imp fun _ _ hcd => hcd.symm⟩

theorem exists_constraint (h : m.IsAlike m') {c : Constraint Float} (hc : c ∈ m.constraints) :
    ∃ d ∈ m'.constraints, c.normalize.IsAlike d.normalize := by
  have hall := h.constraints
  generalize m.constraints = cs at hall hc
  generalize m'.constraints = ds at hall
  induction hall with
  | nil => cases hc
  | cons hcd _ ih =>
      rcases List.mem_cons.mp hc with rfl | hc
      · exact ⟨_, List.mem_cons_self .., hcd⟩
      · obtain ⟨d, hd, hcd⟩ := ih hc
        exact ⟨d, List.mem_cons_of_mem _ hd, hcd⟩

theorem exists_name (h : m.IsAlike m') {v : Variable} (hv : m.Occurs v) :
    ∃ w, m'.Occurs w ∧ w.name = v.name := by
  rcases hv with hv | ⟨c, hc, hv⟩
  · obtain ⟨w, hw, hname⟩ := h.objective.exists_name hv
    exact ⟨w, .inl hw, hname⟩
  · obtain ⟨d, hd, hcd⟩ := h.exists_constraint hc
    obtain ⟨w, hw, hname⟩ := hcd.exists_name (Constraint.occurs_normalize.mpr hv)
    exact ⟨w, .inr ⟨d, hd, Constraint.occurs_normalize.mp hw⟩, hname⟩

theorem exists_name_shallow (h : m.IsAlike m') {v : Variable} (hv : m.OccursShallow v) :
    ∃ w, m'.OccursShallow w ∧ w.name = v.name := by
  rcases hv with hv | ⟨c, hc, hv⟩
  · obtain ⟨w, hw, hname⟩ := h.objective.exists_name hv
    exact ⟨w, .inl hw, hname⟩
  · obtain ⟨d, hd, hcd⟩ := h.exists_constraint hc
    obtain ⟨w, hw, hname⟩ :=
      hcd.exists_name_shallow (Constraint.occursShallow_normalize.mpr hv)
    exact ⟨w, .inr ⟨d, hd, Constraint.occursShallow_normalize.mp hw⟩, hname⟩

/-- Where names stand for one variable each, alike models are images of
one another: each variable goes to the one of its name. -/
theorem exists_renaming (h : m.IsAlike m')
    (hm : ∀ v w, m.Occurs v → m.Occurs w → v.name = w.name → v = w)
    (hm' : ∀ v w, m'.Occurs v → m'.Occurs w → v.name = w.name → v = w) :
    ∃ f, IsRenaming f m.Occurs m'.Occurs ∧ m.IsImage f m' := by
  have hchoice : ∀ v, ∃ w, m.Occurs v → m'.Occurs w ∧ w.name = v.name := by
    intro v
    by_cases hv : m.Occurs v
    · obtain ⟨w, hw⟩ := h.exists_name hv
      exact ⟨w, fun _ => hw⟩
    · exact ⟨v, fun hv' => absurd hv' hv⟩
  obtain ⟨f, hf⟩ := Classical.skolem.mp hchoice
  -- The map is the only one that keeps the names.
  have hunique : ∀ v, m.Occurs v → ∀ w, m'.Occurs w → w.name = v.name → f v = w := by
    intro v hv w hw hname
    exact hm' (f v) w (hf v hv).1 hw ((hf v hv).2.trans hname.symm)
  refine ⟨f, ⟨fun v hv => (hf v hv).2, ?_, ?_⟩, h.sense, ?_, ?_⟩
  · intro v w hv hw heq
    refine hm v w hv hw ?_
    rw [← (hf v hv).2, heq, (hf w hw).2]
  · intro w
    constructor
    · intro hw
      obtain ⟨v, hv, hname⟩ := h.symm.exists_name hw
      exact ⟨v, hv, hunique v hv w hw hname.symm⟩
    · rintro ⟨v, hv, rfl⟩
      exact (hf v hv).1
  · exact h.objective.isImage fun v hv w hw => hunique v (.inl hv) w (.inl hw)
  · have hall := h.constraints
    have hsource : ∀ c ∈ m.constraints, ∀ v, c.Occurs v → m.Occurs v :=
      fun c hc v hv => .inr ⟨c, hc, hv⟩
    have htarget : ∀ d ∈ m'.constraints, ∀ w, d.Occurs w → m'.Occurs w :=
      fun d hd w hw => .inr ⟨d, hd, hw⟩
    generalize m.constraints = cs at hall hsource
    generalize m'.constraints = ds at hall htarget
    induction hall with
    | nil => exact .nil
    | cons hcd _ ih =>
        refine .cons ?_ (ih (fun c hc => hsource c (List.mem_cons_of_mem _ hc))
          fun d hd => htarget d (List.mem_cons_of_mem _ hd))
        refine hcd.isImage fun v hv w hw => ?_
        exact hunique v
          (hsource _ (List.mem_cons_self ..) v (Constraint.occurs_normalize.mp hv)) w
          (htarget _ (List.mem_cons_self ..) w (Constraint.occurs_normalize.mp hw))

end Model.IsAlike

end LinearProgram
