import LinearProgram.FileTree
import LinearProgram.Proofs.Solver.Session

/-!
# `LinearProgram.Proofs.Solver.AlreadySolved`: what has not changed

A run that finds nothing changed answers `alreadySolved`. The solver
knows of its own changes only. Variables are shared handles, and a
change of their attributes is not reported to it.

* `perform_solver_cases` is the step: an operation leaves the solver
  alone, marks it as changed, or is a run that solves a changed model.
* `run_clean_cases` follows by induction on the operations: a solver
  that is not marked has been left alone since such a run.
* `lpText_congr`: the text of a model depends on the kinds and bounds of
  its variables only, not on their start values.

`run_of_alreadySolved` puts this together: after the answer
`alreadySolved` the solver is what the last run that solved the model
made of it, and the text is the one that was solved, provided that the
variables of the model have their kinds and bounds of then.
`alreadySolved_of_changedBound` shows that this proviso is needed.
-/

set_option autoImplicit false

namespace LinearProgram

/-- Whether a variable has the same kind and bounds in two registries. -/
structure Registry.AgreesAt (r r' : Registry) (v : Variable) : Prop where
  kind : (r'.attributes v).kind = (r.attributes v).kind
  lower : (r'.attributes v).lower = (r.attributes v).lower
  upper : (r'.attributes v).upper = (r.attributes v).upper

namespace LpText

/-- The text of a model depends on the kinds and bounds of the listed
variables only. -/
theorem write_congr {r r' : Registry} (m : Model) {vars : VariableSet}
    (h : ∀ v ∈ vars.toList, r.AgreesAt r' v) : write r' m vars = write r m vars := by
  have hbounds : boundsLines r' vars = boundsLines r vars := by
    unfold boundsLines
    refine List.filterMap_congr fun v hv => ?_
    rw [(h v hv).lower, (h v hv).upper]
  have hnames : ∀ kind, namesOfKind r' vars kind = namesOfKind r vars kind := by
    intro kind
    unfold namesOfKind
    rw [List.filter_congr fun v hv => ?_]
    rw [(h v hv).kind]
  rw [write, write, modelLines, modelLines, hbounds, hnames, hnames]

end LpText

namespace Solver

variable {σ : Type}

/-- Whether a solver is left alone or marked as changed. -/
def LeavesOrMarks (s s' : Solver σ) : Prop := s' = s ∨ s'.dirty = true

/-- Solvers with the same model have the same text where its variables
have the same kinds and bounds. -/
theorem lpText_congr {s s' : Solver σ} {r r' : Registry} (hmodel : s'.model = s.model)
    (h : ∀ v, s.model.OccursShallow v → r.AgreesAt r' v) : s'.lpText r' = s.lpText r := by
  have hvars' : s'.variableSet = s.variableSet := by rw [variableSet, variableSet, hmodel]
  cases hvars : s.variableSet with
  | error e => simp only [lpText, hvars', hvars, Except.map]
  | ok vars =>
      have hwrite := LpText.write_congr s.model fun v hv =>
        h v ((Model.mem_variableSet_iff hvars v).mp (VariableSet.mem_toList_iff.mp hv))
      simp only [lpText, hvars', hvars, hmodel, Except.map, hwrite]

theorem leavesOrMarks_setGap (knob : Knob) (gap : Float) (f : Config → Config) (s : Solver σ) :
    s.LeavesOrMarks (setGap knob gap f s).2 := by
  unfold setGap
  split
  · exact .inl rfl
  · exact .inr rfl

theorem leavesOrMarks_setObjective (o : Objective) (s : Solver σ) :
    s.LeavesOrMarks (setObjective o s).2 := by
  rcases setObjective_cases o s with ⟨_, heq⟩ | ⟨e, _, heq⟩ <;> rw [heq]
  · exact .inr rfl
  · exact .inl rfl

theorem leavesOrMarks_addConstraint (c : Constraint Float) (s : Solver σ) :
    s.LeavesOrMarks (addConstraint c s).2 := by
  rcases addConstraint_cases c s with ⟨all, _, heq⟩ | ⟨e, _, heq⟩ <;> rw [heq]
  · exact .inr rfl
  · exact .inl rfl

/-- A batch that adds nothing leaves the solver alone. What is marked
after one constraint stays so. -/
theorem leavesOrMarks_addConstraints (cs : List (Constraint Float)) (s : Solver σ) :
    s.LeavesOrMarks (addConstraints cs s).2 := by
  induction cs generalizing s with
  | nil => exact .inl rfl
  | cons c rest ih =>
      have hfirst := leavesOrMarks_addConstraint c s
      rw [addConstraints, Action.each_cons_apply]
      rcases haction : addConstraint c s with ⟨e | ⟨⟩, s'⟩ <;> rw [haction] at hfirst
      · exact hfirst
      · rcases ih s' with hsame | hmarked
        · exact (congrArg s.LeavesOrMarks hsame).mpr hfirst
        · exact .inr hmarked

theorem leavesOrMarks_setStartValues (registry : Registry) (values : Assignment) (s : Solver σ) :
    s.LeavesOrMarks (setStartValues registry values s).2 := by
  unfold setStartValues
  split
  · exact .inr rfl
  · exact .inl rfl

theorem loadText_dirty (text : String) (s : Solver σ) (registry : Registry) :
    (loadText text (s, registry)).2.1.dirty = true := by
  obtain ⟨all, heq, _⟩ := loadText_eq text s registry
  rw [heq]

end Solver

namespace Session

variable {σ δ : Type} [Storage δ]

/-- Whether a run solves the model, which has changed. -/
def Solves (w : Session σ δ) (times : Durations) : Prop :=
  w.solver.dirty = true ∧ ∃ status, (perform (.solve times) w).1 = .ok (.status status)

/-- A run leaves the solver alone or marked, or it solves the model. -/
theorem perform_solve_cases (times : Durations) (w : Session σ δ) :
    w.solver.LeavesOrMarks (perform (.solve times) w).2.solver
      ∨ w.Solves times ∧ (perform (.solve times) w).2.solver.model = w.solver.model := by
  obtain ⟨result, solver, files, houtcome, heq⟩ := perform_solve times w
  have hsolver : (perform (.solve times) w).2.solver = solver := by rw [heq]
  rw [hsolver]
  cases houtcome with
  | unchanged clean => exact .inl (.inl rfl)
  | refused dirty cause => exact .inl (.inl rfl)
  | failed dirty prepared cause => exact .inl (.inr dirty)
  | solved dirty prepared => exact .inr ⟨⟨dirty, _, congrArg Prod.fst heq⟩, rfl⟩

/-- A run of a solver that is not marked changes nothing. -/
theorem perform_solve_of_clean {w : Session σ δ} (hclean : w.solver.dirty = false)
    (times : Durations) : perform (.solve times) w = (.ok (.status .alreadySolved), w) := by
  obtain ⟨result, solver, files, houtcome, heq⟩ := perform_solve times w
  cases houtcome with
  | unchanged clean => exact heq
  | refused dirty cause =>
      rw [hclean] at dirty
      cases dirty
  | failed dirty prepared cause =>
      rw [hclean] at dirty
      cases dirty
  | solved dirty prepared =>
      rw [hclean] at dirty
      cases dirty

/-- A run that removes the mark solves the model. -/
theorem solves_of_clean {w : Session σ δ} {times : Durations} (hdirty : w.solver.dirty = true)
    (hclean : (perform (.solve times) w).2.solver.dirty = false) : w.Solves times := by
  rcases perform_solve_cases times w with (hsame | hmarked) | ⟨hsolves, _⟩
  · rw [hsame, hdirty] at hclean
    cases hclean
  · rw [hmarked] at hclean
    cases hclean
  · exact hsolves

theorem perform_loadText_leavesOrMarks (text : String) (w : Session σ δ) :
    w.solver.LeavesOrMarks (perform (.loadText text) w).2.solver := by
  obtain ⟨world, hload, heq⟩ := perform_loadText text w
  have hdirty := Solver.loadText_dirty text w.solver w.registry
  rw [hload] at hdirty
  rw [heq]
  exact .inr hdirty

/-- An operation leaves the solver alone or marked, or it is a run that
solves the model. -/
theorem perform_solver_cases (op : Operation σ δ) (w : Session σ δ) :
    w.solver.LeavesOrMarks (perform op w).2.solver
      ∨ ∃ times, op = .solve times ∧ w.Solves times
        ∧ (perform op w).2.solver.model = w.solver.model := by
  have honSolver : ∀ x : Action (Solver σ) ModelError Unit,
      w.solver.LeavesOrMarks (x w.solver).2 → w.solver.LeavesOrMarks (onSolver x w).2.solver := by
    intro x hx
    rw [onSolver_snd]
    exact hx
  -- Only a run takes a mark away.
  cases op with
  | configure f => exact .inl (.inr rfl)
  | setRelativeGap gap => exact .inl (honSolver _ (Solver.leavesOrMarks_setGap _ gap _ _))
  | setAbsoluteGap gap => exact .inl (honSolver _ (Solver.leavesOrMarks_setGap _ gap _ _))
  | resetGaps => exact .inl (.inr rfl)
  | setEngine engine => exact .inl (.inr rfl)
  | setObjective o => exact .inl (honSolver _ (Solver.leavesOrMarks_setObjective o _))
  | addConstraint c => exact .inl (honSolver _ (Solver.leavesOrMarks_addConstraint c _))
  | addConstraints cs => exact .inl (honSolver _ (Solver.leavesOrMarks_addConstraints cs _))
  | setStartValues values =>
      exact .inl (honSolver _ (Solver.leavesOrMarks_setStartValues w.registry values _))
  | reset => exact .inl (.inr rfl)
  | loadText text => exact .inl (perform_loadText_leavesOrMarks text w)
  | loadFile path =>
      rcases perform_loadFile path w with ⟨text, _, heq⟩ | ⟨e, _, heq⟩ <;> rw [heq]
      · exact .inl (perform_loadText_leavesOrMarks text w)
      · exact .inl (.inl rfl)
  | writeFile path =>
      obtain ⟨files, heq⟩ := perform_writeFile_snd path w
      rw [heq]
      exact .inl (.inl rfl)
  | solve times =>
      rcases perform_solve_cases times w with h | ⟨hsolves, hmodel⟩
      · exact .inl h
      · exact .inr ⟨times, rfl, hsolves, hmodel⟩
  | changeVariable op =>
      obtain ⟨registry, heq⟩ := perform_changeVariable_snd op w
      rw [heq]
      exact .inl (.inl rfl)
  | changeFiles f => exact .inl (.inl rfl)

/-- Whether the solver of a session is left alone by operations, at each
point of the way. -/
def IsQuiet (ops : List (Operation σ δ)) (w : Session σ δ) : Prop :=
  ∀ before after, ops = before ++ after → (run before w).solver = w.solver

/-- A solver that is not marked in the end has been left alone since a
run that solved its model, or from the beginning. -/
theorem run_clean_cases (ops : List (Operation σ δ)) (w : Session σ δ)
    (hclean : (run ops w).solver.dirty = false) :
    IsQuiet ops w ∨ ∃ before times after, ops = before ++ .solve times :: after
      ∧ (run before w).Solves times
      ∧ (run (before ++ [.solve times]) w).solver.model = (run before w).solver.model
      ∧ IsQuiet after (run (before ++ [.solve times]) w) := by
  induction ops generalizing w with
  | nil =>
      refine .inl fun before after heq => ?_
      rw [(List.append_eq_nil_iff.mp heq.symm).1]
      rfl
  | cons op rest ih =>
      rcases ih (perform op w).2 hclean with
        hquiet | ⟨before, times, after, rfl, hsolves, hmodel, hquiet⟩
      · -- Nothing happens to the solver after the first operation.
        have hlast : (run rest (perform op w).2).solver = (perform op w).2.solver :=
          hquiet rest [] (List.append_nil rest).symm
        have hfirst : (perform op w).2.solver.dirty = false := by
          rw [← hlast]
          exact hclean
        rcases perform_solver_cases op w with (hsame | hmarked) | ⟨times, rfl, hsolves, hmodel⟩
        · refine .inl fun before after heq => ?_
          cases before with
          | nil => rfl
          | cons op' before =>
              cases heq
              exact (hquiet before after rfl).trans hsame
        · rw [hfirst] at hmarked
          cases hmarked
        · exact .inr ⟨[], times, rest, rfl, hsolves, hmodel, hquiet⟩
      · exact .inr ⟨op :: before, times, after, rfl, hsolves, hmodel, hquiet⟩

/-- After the answer `alreadySolved` there is a last run that solved the
model. It left the solver as it is now, and at each point since then.
The text is the one that was solved, if the variables of the model have
their kinds and bounds of then. -/
theorem run_of_alreadySolved {engine : Engine σ} {config : Config} {registry : Registry}
    {files : δ} {ops : List (Operation σ δ)} {times : Durations} {w : Session σ δ}
    (h : perform (.solve times) (run ops (start engine config registry files))
      = (.ok (.status .alreadySolved), w)) :
    ∃ before times' after, ops ++ [.solve times] = before ++ .solve times' :: after
      ∧ (run before (start engine config registry files)).Solves times'
      ∧ (∀ since later, after = since ++ later →
        (run (before ++ .solve times' :: since) (start engine config registry files)).solver
          = w.solver)
      ∧ (∀ since times'' later, after = since ++ .solve times'' :: later →
        ¬ (run (before ++ .solve times' :: since)
          (start engine config registry files)).Solves times'')
      ∧ ((∀ v, w.solver.model.OccursShallow v →
          (run before (start engine config registry files)).registry.AgreesAt w.registry v) →
        w.solver.lpText w.registry
          = (run before (start engine config registry files)).solver.lpText
            (run before (start engine config registry files)).registry) := by
  generalize hbegin : start engine config registry files = w₀ at h ⊢
  have hend : run (ops ++ [.solve times]) w₀ = w := by
    rw [run_append]
    show (perform (.solve times) (run ops w₀)).2 = w
    rw [h]
  -- Of all that a run can end with, this answer leaves no mark.
  have hclean : (run (ops ++ [.solve times]) w₀).solver.dirty = false := by
    obtain ⟨result, solver, files', houtcome, heq⟩ := perform_solve times (run ops w₀)
    rw [hend]
    rw [heq] at h
    cases houtcome with
    | unchanged clean =>
        cases h
        exact clean
    | refused dirty cause => cases h
    | failed dirty prepared cause => cases h
    | solved dirty prepared =>
        cases h
        rfl
  rcases run_clean_cases _ w₀ hclean with hquiet |
    ⟨before, times', after, heq, hsolves, hmodel, hquiet⟩
  · -- A session begins with a solver that is marked.
    have hsame := hquiet _ [] (List.append_nil _).symm
    rw [hsame, ← hbegin] at hclean
    cases hclean
  · have hafter : ∀ since later, after = since ++ later →
        (run (before ++ .solve times' :: since) w₀).solver = w.solver := by
      intro since later hsplit
      have hsince := hquiet since later hsplit
      have hall := hquiet after [] (List.append_nil after).symm
      rw [← run_append, List.append_assoc] at hsince hall
      have hends : run (before ++ ([.solve times'] ++ after)) w₀ = w := by
        rw [← hend, heq]
        rfl
      rw [hends] at hall
      exact hsince.trans hall.symm
    have hmodel' : w.solver.model = (run before w₀).solver.model := by
      rw [← hafter [] after rfl]
      exact hmodel
    refine ⟨before, times', after, heq, hsolves, hafter, fun since t later hsplit hlater => ?_,
      fun hagrees => ?_⟩
    · -- A later run would have had to find a mark.
      have hdirty := hlater.1
      rw [hafter since _ hsplit, ← hend, hclean] at hdirty
      cases hdirty
    · refine Solver.lpText_congr hmodel' fun v hv => hagrees v ?_
      rw [hmodel']
      exact hv

/-- An engine that finds every model solved. -/
def instant : Engine Unit where
  backend := {
    name := "instant"
    features := .ofList [.lp]
    reset := id
    setConsoleOutput := fun _ => id
    addVariable := fun _ => .done ()
    addConstraint := fun _ => .done ()
    setObjective := fun _ => .done ()
    solve := .done (.optimal, ∅)
  }
  state := ()

/-- A variable `x` between 0 and 5, and the objective to maximize it. -/
def maximizing : List (Operation Unit FileTree) :=
  [.changeVariable (.create "x" .real 0 5), .setObjective ⟨.maximize, .ofVariable ⟨0, "x"⟩⟩]

/-- The session that begins with this engine and goes through operations. -/
def played (ops : List (Operation Unit FileTree)) : Session Unit FileTree :=
  run ops (start instant .initial ∅ ∅)

/-- What is done with a start value of `x` after a run changes nothing:
the text is still the one of some run that solved the model. -/
theorem alreadySolved_of_changedStart :
    let ops := maximizing ++ [.solve .none, .changeVariable (.setStart ⟨0, "x"⟩ (some 2))]
    perform (.solve .none) (played ops) = (.ok (.status .alreadySolved), played ops)
      ∧ ∃ before times after, ops ++ [.solve .none] = before ++ .solve times :: after
        ∧ (played before).Solves times
        ∧ (played ops).solver.lpText (played ops).registry
          = (played before).solver.lpText (played before).registry := by
  intro ops
  have h := perform_solve_of_clean (w := played ops) (by decide +kernel) .none
  obtain ⟨before, times, after, heq, hsolves, _, _, htext⟩ := run_of_alreadySolved h
  refine ⟨h, before, times, after, heq, hsolves, htext fun v hv => ?_⟩
  have hv : v = ⟨0, "x"⟩ := by
    have hobjective : (played ops).solver.model.objective.term.occurring = [⟨0, "x"⟩] := by
      decide +kernel
    have hconstraints : (played ops).solver.model.constraints.length = 0 := by decide +kernel
    rcases hv with hv | ⟨c, hc, _⟩
    · rw [hobjective] at hv
      exact List.mem_singleton.mp hv
    · exact absurd (List.length_pos_of_mem hc) (by omega)
  subst hv
  -- The run was the first one, or the last.
  rcases before with _ | ⟨op₁, _ | ⟨op₂, _ | ⟨op₃, _ | ⟨op₄, _ | ⟨op₅, before⟩⟩⟩⟩⟩
  · cases heq
  · cases heq
  · cases heq
    exact ⟨by decide +kernel, by decide +kernel, by decide +kernel⟩
  · cases heq
  · cases heq
    exact ⟨by decide +kernel, by decide +kernel, by decide +kernel⟩
  · have hlength := congrArg List.length heq
    simp [ops, maximizing] at hlength

/-- A bound of `x` that is changed after a run is not noticed: the next
run answers `alreadySolved`, with another text than the one that was
solved. -/
theorem alreadySolved_of_changedBound :
    let ops := maximizing ++ [.solve .none, .changeVariable (.setUpper ⟨0, "x"⟩ 3)]
    (played maximizing).Solves .none
      ∧ perform (.solve .none) (played ops) = (.ok (.status .alreadySolved), played ops)
      ∧ (played ops).solver.lpText (played ops).registry
        ≠ (played maximizing).solver.lpText (played maximizing).registry := by
  intro ops
  refine ⟨solves_of_clean (by decide +kernel) (by decide +kernel),
    perform_solve_of_clean (by decide +kernel) .none, fun heq => ?_⟩
  have htext : ((played ops).solver.lpText (played ops).registry).toOption
      = ((played maximizing).solver.lpText (played maximizing).registry).toOption :=
    congrArg Except.toOption heq
  exact absurd htext (by decide +kernel)

end Session

end LinearProgram
