import LinearProgram.Solver

/-!
# `LinearProgram.Proofs.Solver.Solving`: how a run of a solver ends

`solve` has four outcomes, and `SolveOutcome` says for each of them what
is left: the model had not changed, it was refused before the backend
was asked, the backend refused it, or it was solved.

* `Refuses` follows the calls that a backend receives up to the one
  that fails. `refuses_of_runEngine`: the error of a run is the error of
  that call.
* `solve_outcome`: `solve` ends in one of the four ways.
-/

set_option autoImplicit false

namespace LinearProgram

/-- Of two actions one after the other the first fails, or the second. -/
theorem action_bind_error_inv {σ ε α β : Type} {x : Action σ ε α} {f : α → Action σ ε β} {s s' : σ}
    {e : ε} (h : (x >>= f) s = (.error e, s')) :
    x s = (.error e, s') ∨ ∃ a s₁, x s = (.ok a, s₁) ∧ f a s₁ = (.error e, s') := by
  rw [Action.bind_apply] at h
  split at h
  · rename_i a s₁ heq
    exact .inr ⟨a, s₁, heq, h⟩
  · rename_i e' s₁ heq
    cases h
    exact .inl heq

section Backend

variable {σ : Type}

/-- A backend receives a model and start values from a state on, and one
of the calls fails with an error and leaves a state. The calls before it
succeed. -/
inductive Refuses (b : Backend σ) (m : Model) (vars : List (Variable × Attributes))
    (start : Assignment) (e : BackendError) : σ → σ → Prop
  | addVariables {s s' : σ} (failed : b.addVariables vars s = (.error e, s')) :
      Refuses b m vars start e s s'
  | setObjective {s s₁ s' : σ} (registered : b.addVariables vars s = (.ok (), s₁))
      (failed : b.setObjective m.objective s₁ = (.error e, s')) : Refuses b m vars start e s s'
  | addConstraints {s s₁ s₂ s' : σ} (registered : b.addVariables vars s = (.ok (), s₁))
      (objective : b.setObjective m.objective s₁ = (.ok (), s₂))
      (failed : b.addConstraints m.constraints s₂ = (.error e, s')) : Refuses b m vars start e s s'
  | setStartValues {s s₁ s₂ s₃ s' : σ} (registered : b.addVariables vars s = (.ok (), s₁))
      (objective : b.setObjective m.objective s₁ = (.ok (), s₂))
      (constraints : b.addConstraints m.constraints s₂ = (.ok (), s₃))
      (given : start.isEmpty = false)
      (failed : b.setStartValues start s₃ = (.error e, s')) : Refuses b m vars start e s s'
  | solve {s s₁ s₂ s₃ s₄ s' : σ} (registered : b.addVariables vars s = (.ok (), s₁))
      (objective : b.setObjective m.objective s₁ = (.ok (), s₂))
      (constraints : b.addConstraints m.constraints s₂ = (.ok (), s₃))
      (started : if start.isEmpty then s₄ = s₃ else b.setStartValues start s₃ = (.ok (), s₄))
      (failed : b.solve s₄ = (.error e, s')) : Refuses b m vars start e s s'

/-- The error of a run is the error of one of the calls. -/
theorem refuses_of_runEngine {b : Backend σ} {c : Config} {m : Model}
    {vars : List (Variable × Attributes)} {start : Assignment} {e : BackendError} {s s' : σ}
    (h : Solver.runEngine b c m vars start s = (.error e, s')) :
    Refuses b m vars start e (Solver.passConfig b c (b.reset s)) s' := by
  have h : (b.addVariables vars >>= fun _ => b.setObjective m.objective >>= fun _ =>
      b.addConstraints m.constraints >>= fun _ =>
        if start.isEmpty then b.solve else b.setStartValues start >>= fun _ => b.solve)
      (Solver.passConfig b c (b.reset s)) = (.error e, s') := h
  -- The calls are made one after another, and the first that fails ends the run.
  rcases action_bind_error_inv h with h | ⟨_, s₁, hvariables, h⟩
  · exact .addVariables h
  rcases action_bind_error_inv h with h | ⟨_, s₂, hobjective, h⟩
  · exact .setObjective hvariables h
  rcases action_bind_error_inv h with h | ⟨_, s₃, hconstraints, h⟩
  · exact .addConstraints hvariables hobjective h
  cases hstart : start.isEmpty with
  | true =>
      rw [hstart] at h
      refine .solve hvariables hobjective hconstraints ?_ h
      rw [hstart]
      exact rfl
  | false =>
      rw [hstart] at h
      rcases action_bind_error_inv h with h | ⟨_, s₄, hgiven, h⟩
      · exact .setStartValues hvariables hobjective hconstraints hstart h
      · refine .solve hvariables hobjective hconstraints ?_ h
        rw [hstart]
        exact hgiven

end Backend

namespace Solver

variable {σ : Type}

/-- Where start values are refused, one of them is outside the domain of
its variable. -/
theorem startAssignment_error {registry : Registry} {given : Assignment} {vars : List Variable}
    {e : ModelError} (h : startAssignment registry given vars = .error e) :
    ∃ name value, e = .startOutsideDomain name value := by
  induction vars with
  | nil => cases h
  | cons v rest ih =>
      rw [startAssignment] at h
      split at h
      · exact ih h
      · rename_i value _
        split at h
        · cases hrest : startAssignment registry given rest with
          | ok a =>
              rw [hrest] at h
              cases h
          | error e' =>
              rw [hrest] at h
              cases h
              exact ih hrest
        · cases h
          exact ⟨v.name, value, rfl⟩

/-- A model is prepared with all its variables. -/
theorem variableSet_of_prepare {registry : Registry} {s : Solver σ} {vars : VariableSet}
    {start : Assignment} (h : s.prepare registry = .ok (vars, start)) :
    s.variableSet = .ok vars := by
  cases hset : s.variableSet with
  | error e => simp [prepare, hset, bind, Except.bind] at h
  | ok all =>
      -- Whether or not start values count, the variables are all of them.
      simp only [prepare, hset, bind, Except.bind] at h
      split at h
      · split at h
        · cases h
        · cases h
          rfl
      · cases h
        rfl

/-- A model is refused before the backend is asked for an ambiguous
name or for a start value. -/
theorem prepare_error {registry : Registry} {s : Solver σ} {e : ModelError}
    (h : s.prepare registry = .error e) :
    s.variableSet = .error e ∨ ∃ name value, e = .startOutsideDomain name value := by
  cases hvars : s.variableSet with
  | error e' =>
      simp only [prepare, hvars, bind, Except.bind] at h
      cases h
      exact .inl rfl
  | ok vars =>
      refine .inr ?_
      simp only [prepare, hvars, bind, Except.bind] at h
      cases hwarm : s.config.warmStart with
      | false =>
          rw [hwarm] at h
          cases h
      | true =>
          cases hstart : startAssignment registry s.startValues vars.toList with
          | ok start =>
              rw [hwarm, if_pos rfl, hstart] at h
              cases h
          | error e' =>
              rw [hwarm, if_pos rfl, hstart] at h
              cases h
              exact startAssignment_error hstart

/-- The variables of a model as a backend receives them. -/
def described (registry : Registry) (vars : VariableSet) : List (Variable × Attributes) :=
  vars.toList.map fun v => (v, registry.attributes v)

/-- The solver after its engine has been at work. -/
def withState (s : Solver σ) (state : σ) : Solver σ := { s with engine := { s.engine with state } }

/-- A run of the engine fails with the error of one of its calls, or
yields a solution. All else stays. -/
theorem solveFresh_cases (registry : Registry) (times : Durations) (vars : VariableSet)
    (start : Assignment) (s : Solver σ) :
    (∃ e state, Refuses s.engine.backend s.model (described registry vars) start e
          (passConfig s.engine.backend s.config (s.engine.backend.reset s.engine.state)) state
        ∧ solveFresh registry times vars start s = (.error e, s.withState state))
      ∨ ∃ status state solution, solveFresh registry times vars start s
        = (.ok status, { s.withState state with solution }) := by
  rcases hrun : runEngine s.engine.backend s.config s.model (described registry vars) start
    s.engine.state with ⟨e | ⟨status, found⟩, state⟩
  · refine .inl ⟨e, state, refuses_of_runEngine hrun, ?_⟩
    rw [described] at hrun
    simp only [solveFresh, hrun, withState]
  · refine .inr ⟨status, state, { found with values := roundIntegral registry found.values, times },
      ?_⟩
    rw [described] at hrun
    simp only [solveFresh, hrun, withState]

variable {δ : Type} [Storage δ]

/-- With and without a cache, a failure is one of the engine and leaves
the files as they are. -/
theorem solveChanged_cases (registry : Registry) (times : Durations) (vars : VariableSet)
    (start : Assignment) (s : Solver σ) (files : δ) :
    (∃ e state, Refuses s.engine.backend s.model (described registry vars) start e
          (passConfig s.engine.backend s.config (s.engine.backend.reset s.engine.state)) state
        ∧ solveChanged registry times vars start (s, files)
          = (.error e, (s.withState state, files)))
      ∨ ∃ status state solution files', solveChanged registry times vars start (s, files)
        = (.ok status, ({ s.withState state with solution }, files')) := by
  cases hdir : s.config.cacheDir with
  | none =>
      rcases solveFresh_cases registry times vars start s with
        ⟨e, state, hrefuses, heq⟩ | ⟨status, state, solution, heq⟩
      · exact .inl ⟨e, state, hrefuses, by simp only [solveChanged, hdir, heq]⟩
      · exact .inr ⟨status, state, solution, files, by simp only [solveChanged, hdir, heq]⟩
  | some dir =>
      have hstep : solveChanged registry times vars start (s, files)
          = solveCached ⟨Path.ofText dir⟩ registry times vars start (s, files) := by
        simp only [solveChanged, hdir]
      rw [hstep]
      generalize (⟨Path.ofText dir⟩ : Cache) = cache
      cases hcached : cachedOptimal? cache files
          (Fingerprint.ofText (LpText.write registry s.model vars)) vars with
      | some solution =>
          -- The engine is not asked for a solution that is there.
          refine .inr ⟨.optimal, s.engine.state, solution, files, ?_⟩
          simp only [solveCached, hcached, withState]
      | none =>
          -- Only a solution is written, so that a failure leaves the files.
          rcases solveFresh_cases registry times vars start s with
            ⟨e, state, hrefuses, heq⟩ | ⟨status, state, solution, heq⟩
          · refine .inl ⟨e, state, hrefuses, ?_⟩
            simp only [solveCached, hcached, heq]
          · rcases hsalvage : salvage cache files
              (Fingerprint.ofText (LpText.write registry s.model vars)) vars status solution
              with ⟨shown, kept⟩
            refine .inr ⟨shown, state, kept, remember cache
              (Fingerprint.ofText (LpText.write registry s.model vars))
              (LpText.write registry s.model vars) s.model.objective.sense status solution files,
              ?_⟩
            simp only [solveCached, hcached, heq, hsalvage]
            rfl

/-- What `solve` gives and leaves. -/
inductive SolveOutcome (registry : Registry) (s : Solver σ) (files : δ) :
    Except SolverError Status → Solver σ → δ → Prop
  /-- The model has not changed. -/
  | unchanged (clean : s.dirty = false) : SolveOutcome registry s files (.ok .alreadySolved) s files
  /-- The model is refused, and the engine has not been asked. -/
  | refused {e : ModelError} (dirty : s.dirty = true) (cause : s.prepare registry = .error e) :
      SolveOutcome registry s files (.error (.model e)) s files
  /-- The engine refuses the model. -/
  | failed {vars : VariableSet} {start : Assignment} {e : BackendError} {state : σ}
      (dirty : s.dirty = true) (prepared : s.prepare registry = .ok (vars, start))
      (cause : Refuses s.engine.backend s.model (described registry vars) start e
        (passConfig s.engine.backend s.config (s.engine.backend.reset s.engine.state)) state) :
      SolveOutcome registry s files (.error (.backend e)) (s.withState state) files
  /-- The model has been solved, by the engine or from the cache. -/
  | solved {vars : VariableSet} {start : Assignment} {state : σ} {status : Status}
      {solution : Solution} {files' : δ} (dirty : s.dirty = true)
      (prepared : s.prepare registry = .ok (vars, start)) :
      SolveOutcome registry s files (.ok status)
        { s.withState state with solution, status, dirty := false } files'

/-- A model that has not changed is not solved again. -/
theorem solve_of_clean {registry : Registry} {s : Solver σ} (hclean : s.dirty = false)
    (times : Durations) (files : δ) :
    solve registry times (s, files) = (.ok .alreadySolved, (s, files)) := by
  simp [solve, hclean]

/-- A model that is refused leaves everything as it is. -/
theorem solve_of_prepare_error {registry : Registry} {s : Solver σ} {e : ModelError}
    (hdirty : s.dirty = true) (hprepare : s.prepare registry = .error e) (times : Durations)
    (files : δ) : solve registry times (s, files) = (.error (.model e), (s, files)) := by
  simp [solve, hdirty, hprepare]

/-- Every run ends in one of the four ways. -/
theorem solve_outcome (registry : Registry) (times : Durations) (s : Solver σ) (files : δ) :
    SolveOutcome registry s files (solve registry times (s, files)).1
      (solve registry times (s, files)).2.1 (solve registry times (s, files)).2.2 := by
  cases hdirty : s.dirty with
  | false =>
      rw [solve_of_clean hdirty]
      exact .unchanged hdirty
  | true =>
      cases hprepare : s.prepare registry with
      | error e =>
          rw [solve_of_prepare_error hdirty hprepare]
          exact .refused hdirty hprepare
      | ok prepared =>
          obtain ⟨vars, start⟩ := prepared
          rcases solveChanged_cases registry times vars start s files with
            ⟨e, state, hrefuses, hchanged⟩ | ⟨status, state, solution, files', hchanged⟩
          · have heq : solve registry times (s, files)
                = (.error (.backend e), (s.withState state, files)) := by
              simp [solve, hdirty, hprepare, hchanged]
            rw [heq]
            exact .failed hdirty hprepare hrefuses
          · have heq : solve registry times (s, files)
                = (.ok status,
                  ({ s.withState state with solution, status, dirty := false }, files')) := by
              simp [solve, hdirty, hprepare, hchanged]
            rw [heq]
            exact .solved hdirty hprepare

end Solver

end LinearProgram
