import LinearProgram.Proofs.Solver.Session

/-!
# `LinearProgram.Proofs.Solver.UnambiguousNames`: names in a session

Whatever is done with a solver, and whatever of it fails, the names of
its model stay unambiguous. `isInStep_perform` is the step: each
operation keeps `Solver.IsInStep`, by the lemma on that operation.
`isInStep_run` follows by induction on the operations.

`run_unambiguous` draws the conclusions: the solver's own set of
variables is the union of the sets of its constraints, the model has a
set of variables and a text, and no run fails for an ambiguous name.
-/

set_option autoImplicit false

namespace LinearProgram

namespace Solver

variable {σ δ : Type}

theorem IsInStep.setGap {s : Solver σ} (h : s.IsInStep) (knob : Knob) (gap : Float)
    (f : Config → Config) : (Solver.setGap knob gap f s).2.IsInStep := by
  unfold Solver.setGap
  split
  · exact h
  · exact ⟨h.constraintVariables, h.distinct⟩

theorem IsInStep.setStartValues {s : Solver σ} (h : s.IsInStep) (registry : Registry)
    (values : Assignment) : (Solver.setStartValues registry values s).2.IsInStep := by
  unfold Solver.setStartValues
  split
  · exact ⟨h.constraintVariables, h.distinct⟩
  · exact h

theorem IsInStep.solve {registry : Registry} {s s' : Solver σ} {files files' : δ}
    {result : Except SolverError Status} (h : s.IsInStep)
    (houtcome : SolveOutcome registry s files result s' files') : s'.IsInStep := by
  cases houtcome with
  | unchanged clean => exact h
  | refused dirty cause => exact h
  | failed dirty prepared cause => exact ⟨h.constraintVariables, h.distinct⟩
  | solved dirty prepared => exact ⟨h.constraintVariables, h.distinct⟩

/-- A solver in step has a set of variables. -/
theorem IsInStep.exists_variableSet {s : Solver σ} (h : s.IsInStep) :
    ∃ vars, s.variableSet = .ok vars :=
  s.model.exists_variableSet_iff.mpr h.distinct

/-- A solver in step has a text. -/
theorem IsInStep.exists_lpText {s : Solver σ} (h : s.IsInStep) (registry : Registry) :
    ∃ text, s.lpText registry = .ok text := by
  obtain ⟨vars, hvars⟩ := h.exists_variableSet
  exact ⟨LpText.write registry s.model vars, by rw [lpText, hvars]; rfl⟩

/-- Each constraint of a solver in step has a set of variables. -/
theorem IsInStep.exists_own {s : Solver σ} (h : s.IsInStep) {c : Constraint Float}
    (hc : c ∈ s.model.constraints) :
    ∃ own, c.variableSet = .ok own ∧ ∀ v, v ∈ own ↔ c.OccursShallow v := by
  rcases c.variableSet_cases with hown | ⟨v, w, _, hv, hw, hne, hname⟩
  · exact hown
  · exact absurd (h.distinct w v (.inr ⟨c, hc, hw⟩) (.inr ⟨c, hc, hv⟩) hname) hne

end Solver

namespace Session

variable {σ δ : Type}

/-- A session begins in step. -/
theorem isInStep_start (engine : Engine σ) (config : Config) (registry : Registry) (files : δ) :
    (start engine config registry files).solver.IsInStep := Solver.isInStep_of_empty rfl rfl

variable [Storage δ]

/-- Loading a text leaves the solver in step, wherever it was before. -/
theorem isInStep_perform_loadText (text : String) (w : Session σ δ) :
    (perform (.loadText text) w).2.solver.IsInStep := by
  obtain ⟨world, hload, heq⟩ := perform_loadText text w
  have hstep := Solver.isInStep_loadText text w.solver w.registry
  rw [hload] at hstep
  rw [heq]
  exact hstep

/-- No operation brings a solver out of step. -/
theorem isInStep_perform {w : Session σ δ} (h : w.solver.IsInStep) (op : Operation σ δ) :
    (perform op w).2.solver.IsInStep := by
  cases op with
  | configure f => exact ⟨h.constraintVariables, h.distinct⟩
  | setRelativeGap gap =>
      rw [perform, onSolver_snd]
      exact h.setGap _ gap _
  | setAbsoluteGap gap =>
      rw [perform, onSolver_snd]
      exact h.setGap _ gap _
  | resetGaps => exact ⟨h.constraintVariables, h.distinct⟩
  | setEngine engine => exact ⟨h.constraintVariables, h.distinct⟩
  | setObjective o =>
      rw [perform, onSolver_snd]
      exact h.setObjective o
  | addConstraint c =>
      rw [perform, onSolver_snd]
      exact h.addConstraint c
  | addConstraints cs =>
      rw [perform, onSolver_snd]
      exact h.addConstraints cs
  | setStartValues values =>
      rw [perform, onSolver_snd]
      exact h.setStartValues w.registry values
  | reset => exact Solver.isInStep_of_empty rfl rfl
  | loadText text => exact isInStep_perform_loadText text w
  | loadFile path =>
      rcases perform_loadFile path w with ⟨text, _, heq⟩ | ⟨e, _, heq⟩
      · rw [heq]
        exact isInStep_perform_loadText text w
      · rw [heq]
        exact h
  | writeFile path =>
      obtain ⟨files, heq⟩ := perform_writeFile_snd path w
      rw [heq]
      exact h
  | solve times =>
      obtain ⟨result, solver, files, houtcome, heq⟩ := perform_solve times w
      rw [heq]
      exact h.solve houtcome
  | changeVariable op =>
      obtain ⟨registry, heq⟩ := perform_changeVariable_snd op w
      rw [heq]
      exact h
  | changeFiles f => exact h

/-- A solver in step stays so, whatever is done. -/
theorem isInStep_run {w : Session σ δ} (h : w.solver.IsInStep) (ops : List (Operation σ δ)) :
    (run ops w).solver.IsInStep := by
  induction ops generalizing w with
  | nil => exact h
  | cons op ops ih => exact ih (isInStep_perform h op)

/-- A solver in step does not fail to solve for an ambiguous name. -/
theorem perform_solve_ne_nameCollision {w : Session σ δ} (h : w.solver.IsInStep)
    (times : Durations) (name : String) :
    (perform (.solve times) w).1 ≠ .error (.model (.nameCollision name)) := by
  intro heq
  obtain ⟨result, solver, files, houtcome, hsolve⟩ := perform_solve times w
  rw [hsolve] at heq
  cases houtcome with
  | unchanged clean => cases heq
  | refused dirty cause =>
      cases heq
      rcases Solver.prepare_error cause with hvars | ⟨name', value, herror⟩
      · obtain ⟨vars, hok⟩ := h.exists_variableSet
        rw [hvars] at hok
        cases hok
      · cases herror
  | failed dirty prepared cause => cases heq
  | solved dirty prepared => cases heq

/-- After anything has been done with a solver and its surroundings, the
solver's own set of variables is the union of the sets of its
constraints, all of which exist; the model has a set of variables and a
text; and to solve it does not fail for an ambiguous name. -/
theorem run_unambiguous (engine : Engine σ) (config : Config) (registry : Registry) (files : δ)
    (ops : List (Operation σ δ)) :
    let w := run ops (start engine config registry files)
    (∀ c ∈ w.solver.model.constraints, ∃ own, c.variableSet = .ok own)
      ∧ (∀ v, v ∈ w.solver.constraintVariables
        ↔ ∃ c ∈ w.solver.model.constraints, ∃ own, c.variableSet = .ok own ∧ v ∈ own)
      ∧ (∃ vars, w.solver.variableSet = .ok vars)
      ∧ (∃ text, w.solver.lpText w.registry = .ok text)
      ∧ ∀ times name, (perform (.solve times) w).1 ≠ .error (.model (.nameCollision name)) := by
  intro w
  have h : w.solver.IsInStep := isInStep_run (isInStep_start engine config registry files) ops
  refine ⟨fun c hc => ?_, fun v => ?_, h.exists_variableSet, h.exists_lpText w.registry,
    perform_solve_ne_nameCollision h⟩
  · obtain ⟨own, hown, _⟩ := h.exists_own hc
    exact ⟨own, hown⟩
  · rw [h.constraintVariables]
    constructor
    · rintro ⟨c, hc, hv⟩
      obtain ⟨own, hown, hmem⟩ := h.exists_own hc
      exact ⟨c, hc, own, hown, (hmem v).mpr hv⟩
    · rintro ⟨c, hc, own, hown, hv⟩
      obtain ⟨own', hown', hmem⟩ := h.exists_own hc
      rw [hown] at hown'
      cases hown'
      exact ⟨c, hc, (hmem v).mp hv⟩

end Session

end LinearProgram
