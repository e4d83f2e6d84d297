import LinearProgram.Proofs.Model.Occurrence
import LinearProgram.Solver

/-!
# `LinearProgram.Proofs.Solver.Admission`: what a solver takes into its model

A solver takes an objective or a constraint only if the names in its
model stay unambiguous. It does not look at all constraints for that: it
keeps the set of their variables beside them.

* `Solver.IsInStep` is the invariant: this set belongs to the
  constraints, and the names of the model are unambiguous.
* `checkObjective_cases` and `admitConstraint_cases` say that under the
  invariant the checks are exact. What would make a name ambiguous is
  refused, and nothing else is.
* `setObjective_cases`, `addConstraint_cases` and
  `addConstraints_cases` say all that the three operations can do.
* `loadModel_eq`: a model with unambiguous names is taken over whole.
-/

set_option autoImplicit false

namespace LinearProgram

namespace Model

/-- Whether a name stands for one variable in the objective, the
constraints and their guards. -/
def HasDistinctNames (m : Model) : Prop :=
  ∀ v w, m.OccursShallow v → m.OccursShallow w → v.name = w.name → v = w

theorem HasDistinctNames.mono {m m' : Model} (h : m'.HasDistinctNames)
    (hsub : ∀ v, m.OccursShallow v → m'.OccursShallow v) : m.HasDistinctNames :=
  fun v w hv hw => h v w (hsub v hv) (hsub w hw)

/-- A model has a set of variables exactly if its names are unambiguous. -/
theorem exists_variableSet_iff (m : Model) :
    (∃ vars, m.variableSet = .ok vars) ↔ m.HasDistinctNames := by
  rcases m.variableSet_cases with ⟨vars, heq, hmem⟩ | ⟨v, w, heq, hv, hw, hne, hname⟩
  · constructor
    · intro _ v w hv hw hname
      exact VariableSet.eq_of_name_eq ((hmem v).mpr hv) ((hmem w).mpr hw) hname
    · intro _
      exact ⟨vars, heq⟩
  · constructor
    · rintro ⟨vars, h⟩
      rw [heq] at h
      cases h
    · intro h
      exact absurd (h w v hw hv hname) hne

end Model

namespace Solver

variable {σ : Type} {s : Solver σ}

/-- The model with another objective. -/
def withObjective (s : Solver σ) (o : Objective) : Model := { s.model with objective := o }

/-- The model with further constraints. -/
def withConstraints (s : Solver σ) (cs : List (Constraint Float)) : Model :=
  { s.model with constraints := s.model.constraints ++ cs }

/-- The solver without its model, as it is before another one is loaded. -/
def cleared (s : Solver σ) : Solver σ :=
  { s with model := ∅, constraintVariables := ∅, startValues := ∅ }

/-- Whether the set of the constraints' variables is what it should be,
and the names of the model are unambiguous. -/
structure IsInStep (s : Solver σ) : Prop where
  constraintVariables :
    ∀ v, v ∈ s.constraintVariables ↔ ∃ c ∈ s.model.constraints, c.OccursShallow v
  distinct : s.model.HasDistinctNames

/-- A solver without a model is in step. -/
theorem isInStep_of_empty (hmodel : s.model = ∅) (hvars : s.constraintVariables = ∅) :
    s.IsInStep := by
  refine ⟨fun v => ?_, ?_⟩
  · rw [hvars, hmodel]
    constructor
    · intro h
      exact absurd h (VariableSet.not_mem_empty v)
    · rintro ⟨c, hc, _⟩
      exact absurd hc List.not_mem_nil
  · rw [hmodel]
    rintro v w (hv | ⟨c, hc, _⟩)
    · exact absurd hv List.not_mem_nil
    · exact absurd hc List.not_mem_nil

/-! ### Checks -/

/-- An objective is refused exactly if it would make a name ambiguous. -/
theorem checkObjective_cases (h : s.IsInStep) (o : Objective) :
    (s.checkObjective o = .ok () ∧ (s.withObjective o).HasDistinctNames)
      ∨ ∃ name, s.checkObjective o = .error (.nameCollision name)
        ∧ ¬ (s.withObjective o).HasDistinctNames := by
  rcases VariableSet.ofList_cases o.term.occurring with
    ⟨own, hown, hmem⟩ | ⟨v, w, hown, hv, hw, hne, hname⟩
  · have hstep : s.checkObjective o = s.constraintVariables.check own.toList := by
      simp only [checkObjective, Term.variableSet, hown]
    have hlist : ∀ v, v ∈ own.toList ↔ v ∈ o.term.occurring := fun v =>
      VariableSet.mem_toList_iff.trans (hmem v)
    rw [hstep]
    rcases s.constraintVariables.check_cases own.toList with
      ⟨heq, hall⟩ | ⟨v, hv, w, hw, heq, hne, hname⟩
    · refine .inl ⟨heq, fun v w hv hw hname => ?_⟩
      rcases hv with hv | hv <;> rcases hw with hw | hw
      · exact VariableSet.eq_of_name_eq ((hmem v).mpr hv) ((hmem w).mpr hw) hname
      · exact (hall v ((hlist v).mpr hv) w ((h.constraintVariables w).mpr hw) hname.symm).symm
      · exact hall w ((hlist w).mpr hw) v ((h.constraintVariables v).mpr hv) hname
      · exact h.distinct v w (.inr hv) (.inr hw) hname
    · refine .inr ⟨v.name, heq, fun hdistinct => hne ?_⟩
      exact hdistinct w v (.inr ((h.constraintVariables w).mp hw)) (.inl ((hlist v).mp hv)) hname
  · refine .inr ⟨v.name, ?_, fun hdistinct => hne ?_⟩
    · simp only [checkObjective, Term.variableSet, hown]
    · exact hdistinct w v (.inl hw) (.inl hv) hname

/-- What occurs in the model with one more constraint. -/
theorem occursShallow_withConstraint {c : Constraint Float} {v : Variable} :
    (s.withConstraints [c]).OccursShallow v ↔ s.model.OccursShallow v ∨ c.OccursShallow v := by
  show v ∈ s.model.objective.term.occurring ∨ (∃ d ∈ s.model.constraints ++ [c], _) ↔ _
  simp only [Model.OccursShallow, List.mem_append, List.mem_singleton, or_assoc]
  constructor
  · rintro (hv | ⟨d, hd | rfl, hv⟩)
    · exact .inl hv
    · exact .inr (.inl ⟨d, hd, hv⟩)
    · exact .inr (.inr hv)
  · rintro (hv | ⟨d, hd, hv⟩ | hv)
    · exact .inl hv
    · exact .inr ⟨d, .inl hd, hv⟩
    · exact .inr ⟨c, .inr rfl, hv⟩

/-- A constraint keeps names unambiguous if its own are, and if none of
them meets one of the model. -/
theorem hasDistinctNames_withConstraint {c : Constraint Float} (h : s.model.HasDistinctNames)
    (hown : ∀ v w, c.OccursShallow v → c.OccursShallow w → v.name = w.name → v = w)
    (hmeets : ∀ u, s.model.OccursShallow u → ∀ v, c.OccursShallow v → u.name = v.name → u = v) :
    (s.withConstraints [c]).HasDistinctNames := by
  intro v w hv hw hname
  rw [occursShallow_withConstraint] at hv hw
  rcases hv with hv | hv <;> rcases hw with hw | hw
  · exact h v w hv hw hname
  · exact hmeets v hv w hw hname
  · exact (hmeets w hw v hv hname.symm).symm
  · exact hown v w hv hw hname

/-- A constraint is refused exactly if it would make a name ambiguous. -/
theorem admitConstraint_cases (h : s.IsInStep) (c : Constraint Float) :
    (∃ all, s.admitConstraint c = .ok all
        ∧ (∀ v, v ∈ all ↔ v ∈ s.constraintVariables ∨ c.OccursShallow v)
        ∧ (s.withConstraints [c]).HasDistinctNames)
      ∨ ∃ name, s.admitConstraint c = .error (.nameCollision name)
        ∧ ¬ (s.withConstraints [c]).HasDistinctNames := by
  -- Each refusal comes with two variables of one name.
  have hrefused : ∀ v w, (s.model.OccursShallow w ∨ c.OccursShallow w) → c.OccursShallow v →
      w ≠ v → w.name = v.name → ¬ (s.withConstraints [c]).HasDistinctNames := by
    intro v w hw hv hne hname hdistinct
    exact hne (hdistinct w v (occursShallow_withConstraint.mpr hw)
      (occursShallow_withConstraint.mpr (.inr hv)) hname)
  rcases c.variableSet_cases with ⟨own, hown, hmem⟩ | ⟨v, w, hown, hv, hw, hne, hname⟩
  rotate_left
  · refine .inr ⟨v.name, ?_, hrefused v w (.inr hw) hv hne hname⟩
    simp only [admitConstraint, hown, bind, Except.bind]
  have hlist : ∀ v, v ∈ own.toList ↔ c.OccursShallow v := fun v =>
    VariableSet.mem_toList_iff.trans (hmem v)
  rcases s.constraintVariables.check_cases own.toList with
    ⟨hcheck, hconstraints⟩ | ⟨v, hv, w, hw, hcheck, hne, hname⟩
  rotate_left
  · refine .inr ⟨v.name, ?_, hrefused v w (.inl (.inr ((h.constraintVariables w).mp hw)))
      ((hlist v).mp hv) hne hname⟩
    simp only [admitConstraint, hown, hcheck, bind, Except.bind]
  obtain ⟨others, hothers, hmem'⟩ : ∃ others, VariableSet.ofList s.model.objective.term.occurring
      = .ok others ∧ ∀ v, v ∈ others ↔ v ∈ s.model.objective.term.occurring := by
    rcases VariableSet.ofList_cases s.model.objective.term.occurring with
      hothers | ⟨v, w, _, hv, hw, hne, hname⟩
    · exact hothers
    · exact absurd (h.distinct w v (.inl hw) (.inl hv) hname) hne
  rcases others.check_cases own.toList with
    ⟨hcheck', hobjective⟩ | ⟨v, hv, w, hw, hcheck', hne, hname⟩
  rotate_left
  · refine .inr ⟨v.name, ?_,
      hrefused v w (.inl (.inl ((hmem' w).mp hw))) ((hlist v).mp hv) hne hname⟩
    simp only [admitConstraint, Term.variableSet, hown, hcheck, hothers, hcheck', bind, Except.bind]
  obtain ⟨all, hextend, hall⟩ := VariableSet.extend_of_agree hconstraints
  refine .inl ⟨all, ?_, fun v => ?_, hasDistinctNames_withConstraint h.distinct ?_ ?_⟩
  · simp only [admitConstraint, Term.variableSet, hown, hcheck, hothers, hcheck', hextend, bind,
      Except.bind]
  · rw [hall, hlist]
  · intro v w hv hw hname
    exact VariableSet.eq_of_name_eq ((hmem v).mpr hv) ((hmem w).mpr hw) hname
  · rintro u (hu | hu) v hv hname
    · exact hobjective v ((hlist v).mpr hv) u ((hmem' u).mpr hu) hname
    · exact hconstraints v ((hlist v).mpr hv) u ((h.constraintVariables u).mpr hu) hname

/-! ### Operations -/

/-- An objective is set, or nothing happens. -/
theorem setObjective_cases (o : Objective) (s : Solver σ) :
    (s.checkObjective o = .ok ()
        ∧ setObjective o s = (.ok (), { s with model := s.withObjective o, dirty := true }))
      ∨ ∃ e, s.checkObjective o = .error e ∧ setObjective o s = (.error e, s) := by
  cases hcheck : s.checkObjective o with
  | ok u => exact .inl ⟨rfl, by simp only [setObjective, hcheck, withObjective]⟩
  | error e => exact .inr ⟨e, rfl, by simp only [setObjective, hcheck]⟩

/-- A constraint is added, or nothing happens. -/
theorem addConstraint_cases (c : Constraint Float) (s : Solver σ) :
    (∃ all, s.admitConstraint c = .ok all
        ∧ addConstraint c s
          = (.ok (), { s with
              model := s.withConstraints [c], constraintVariables := all, dirty := true }))
      ∨ ∃ e, s.admitConstraint c = .error e ∧ addConstraint c s = (.error e, s) := by
  cases hanswer : s.admitConstraint c with
  | ok all => exact .inl ⟨all, rfl, by simp only [addConstraint, hanswer, withConstraints]⟩
  | error e => exact .inr ⟨e, rfl, by simp only [addConstraint, hanswer]⟩

/-- Constraints are all added, or those before one that is refused. -/
theorem addConstraints_cases (cs : List (Constraint Float)) (s : Solver σ) :
    (∃ s', addConstraints cs s = (.ok (), s'))
      ∨ ∃ before c after s' e, cs = before ++ c :: after ∧ addConstraints before s = (.ok (), s')
        ∧ s'.admitConstraint c = .error e ∧ addConstraints cs s = (.error e, s') := by
  induction cs generalizing s with
  | nil => exact .inl ⟨s, rfl⟩
  | cons c rest ih =>
      rcases addConstraint_cases c s with ⟨all, _, heq⟩ | ⟨e, hanswer, heq⟩
      · have hstep : ∀ cs, addConstraints (c :: cs) s = addConstraints cs _ := fun cs => by
          rw [addConstraints, Action.each_cons_apply, heq]
          rfl
        rw [hstep]
        rcases ih _ with hall | ⟨before, d, after, s', e, rfl, hbefore, hanswer, herror⟩
        · exact .inl hall
        · exact .inr ⟨c :: before, d, after, s', e, rfl, (hstep before).trans hbefore, hanswer,
            herror⟩
      · refine .inr ⟨[], c, rest, s, e, rfl, rfl, hanswer, ?_⟩
        rw [addConstraints, Action.each_cons_apply, heq]

/-- Added constraints stand behind the others, and all else stays. -/
theorem addConstraints_eq {cs : List (Constraint Float)} {s s' : Solver σ}
    (h : addConstraints cs s = (.ok (), s')) :
    s' = { s with
      model := s.withConstraints cs
      constraintVariables := s'.constraintVariables
      dirty := s.dirty || !cs.isEmpty } := by
  induction cs generalizing s with
  | nil =>
      cases h
      simp [withConstraints]
  | cons c rest ih =>
      rcases addConstraint_cases c s with ⟨all, _, heq⟩ | ⟨e, _, heq⟩
      · rw [addConstraints, Action.each_cons_apply, heq] at h
        refine (ih h).trans ?_
        simp [withConstraints]
      · rw [addConstraints, Action.each_cons_apply, heq] at h
        cases h

theorem IsInStep.setObjective (h : s.IsInStep) (o : Objective) :
    (Solver.setObjective o s).2.IsInStep := by
  rcases setObjective_cases o s with ⟨hcheck, heq⟩ | ⟨e, _, heq⟩
  · rw [heq]
    rcases checkObjective_cases h o with ⟨_, hdistinct⟩ | ⟨name, hcheck', _⟩
    · exact ⟨h.constraintVariables, hdistinct⟩
    · rw [hcheck] at hcheck'
      cases hcheck'
  · rw [heq]
    exact h

theorem IsInStep.addConstraint (h : s.IsInStep) (c : Constraint Float) :
    (Solver.addConstraint c s).2.IsInStep := by
  rcases addConstraint_cases c s with ⟨all, hanswer, heq⟩ | ⟨e, _, heq⟩
  · rw [heq]
    rcases admitConstraint_cases h c with ⟨all', hanswer', hall, hdistinct⟩ | ⟨name, hanswer', _⟩
    · rw [hanswer] at hanswer'
      cases hanswer'
      refine ⟨fun v => ?_, hdistinct⟩
      show v ∈ all ↔ ∃ d ∈ s.model.constraints ++ [c], d.OccursShallow v
      rw [hall, h.constraintVariables]
      simp only [List.mem_append, List.mem_singleton, or_and_right, exists_or, exists_eq_left]
    · rw [hanswer] at hanswer'
      cases hanswer'
  · rw [heq]
    exact h

theorem IsInStep.addConstraints (h : s.IsInStep) (cs : List (Constraint Float)) :
    (Solver.addConstraints cs s).2.IsInStep := by
  induction cs generalizing s with
  | nil => exact h
  | cons c rest ih =>
      have hc := h.addConstraint c
      rw [Solver.addConstraints, Action.each_cons_apply]
      rcases addConstraint_cases c s with ⟨all, _, heq⟩ | ⟨e, _, heq⟩ <;> rw [heq] at hc ⊢
      · exact ih hc
      · exact hc

/-! ### Whole models -/

/-- Constraints that keep the names unambiguous are all added. -/
theorem addConstraints_ok (h : s.IsInStep) {cs : List (Constraint Float)}
    (hdistinct : (s.withConstraints cs).HasDistinctNames) :
    ∃ s', Solver.addConstraints cs s = (.ok (), s') := by
  rcases addConstraints_cases cs s with hall | ⟨before, c, after, s', e, rfl, hbefore, hanswer, _⟩
  · exact hall
  · have hs' : s'.IsInStep := by
      have hstep := h.addConstraints before
      rwa [hbefore] at hstep
    -- The refused constraint would be the next of the list.
    have hnext : s'.withConstraints [c] = s.withConstraints (before ++ [c]) := by
      rw [addConstraints_eq hbefore]
      simp [withConstraints]
    rcases admitConstraint_cases hs' c with ⟨all, hanswer', _⟩ | ⟨name, _, hambiguous⟩
    · rw [hanswer] at hanswer'
      cases hanswer'
    · refine absurd (hdistinct.mono fun v hv => ?_) hambiguous
      rw [hnext] at hv
      rcases hv with hv | ⟨d, hd, hv⟩
      · exact .inl hv
      · have hd : d ∈ s.model.constraints ++ (before ++ [c]) := hd
        refine .inr ⟨d, show d ∈ s.model.constraints ++ (before ++ c :: after) from ?_, hv⟩
        rw [List.append_cons, ← List.append_assoc]
        exact List.mem_append_left after hd

/-- A model with unambiguous names is taken over, and all else but the
start values stays. -/
theorem loadModel_eq {m : Model} (hm : m.HasDistinctNames) (s : Solver σ) :
    ∃ all, loadModel m s
        = (.ok (), { s with
            model := m, constraintVariables := all, startValues := ∅, dirty := true })
      ∧ ∀ v, v ∈ all ↔ ∃ c ∈ m.constraints, c.OccursShallow v := by
  have hcleared : s.cleared.IsInStep := isInStep_of_empty rfl rfl
  rcases setObjective_cases m.objective s.cleared with ⟨_, heq⟩ | ⟨e, hcheck, _⟩
  rotate_left
  · -- The objective is not refused.
    rcases checkObjective_cases hcleared m.objective with ⟨hcheck', _⟩ | ⟨name, _, hambiguous⟩
    · rw [hcheck] at hcheck'
      cases hcheck'
    · refine absurd (hm.mono fun v hv => ?_) hambiguous
      rcases hv with hv | ⟨c, hc, _⟩
      · exact .inl hv
      · exact absurd hc List.not_mem_nil
  have hfirst := hcleared.setObjective m.objective
  rw [heq] at hfirst
  obtain ⟨s', hs'⟩ : ∃ s', Solver.addConstraints m.constraints _ = (.ok (), s') :=
    addConstraints_ok hfirst hm
  have hlast := hfirst.addConstraints m.constraints
  rw [hs'] at hlast
  have hmodel := addConstraints_eq hs'
  refine ⟨s'.constraintVariables, ?_, ?_⟩
  · show (setObjective m.objective >>= fun _ => Solver.addConstraints m.constraints) s.cleared = _
    rw [Action.bind_apply, heq]
    exact hs'.trans (congrArg (Prod.mk _) hmodel)
  · intro v
    rw [hlast.constraintVariables, hmodel]
    rfl

end Solver

end LinearProgram
