import LinearProgram.FileTree
import LinearProgram.Proofs.Solver.Session

/-!
# `LinearProgram.Proofs.Solver.Failures`: what a failed operation leaves

An operation that fails leaves the session as it was, with three
exceptions. A batch of constraints stops at the first one that is
refused and keeps those before it. A run that the engine refuses leaves
the engine in the state of the failed call. A text that cannot be
written may leave something among the files.

`perform_error` says this of all operations. Of a run it also says where
the error comes from: either the engine is not asked at all, so that the
run fails in the same way with any other engine, or the error is the one
that the engine returned, in answer to the call that `Refuses` names.
-/

set_option autoImplicit false

namespace LinearProgram

namespace Session

variable {σ δ : Type}

/-- The session with another engine in its solver. -/
def withEngine (w : Session σ δ) (engine : Engine σ) : Session σ δ :=
  { w with solver := { w.solver with engine } }

/-- An action on the solver that leaves a solver alone where it fails
leaves a session alone. -/
theorem onSolver_error {x : Action (Solver σ) ModelError Unit} {w w' : Session σ δ}
    {e : SolverError} (h : onSolver x w = (.error e, w'))
    (hx : ∀ m s, x w.solver = (.error m, s) → s = w.solver) : w' = w := by
  rcases heq : x w.solver with ⟨m | _, s⟩
  · rw [onSolver, heq] at h
    cases h
    rw [hx m s heq]
  · rw [onSolver, heq] at h
    cases h

theorem setGap_error {knob : Knob} {gap : Float} {f : Config → Config} {s s' : Solver σ}
    {m : ModelError} (h : Solver.setGap knob gap f s = (.error m, s')) : s' = s := by
  unfold Solver.setGap at h
  split at h
  · cases h
    rfl
  · cases h

theorem setObjective_error {o : Objective} {s s' : Solver σ} {m : ModelError}
    (h : Solver.setObjective o s = (.error m, s')) : s' = s := by
  rcases Solver.setObjective_cases o s with ⟨_, heq⟩ | ⟨m', _, heq⟩
  · rw [heq] at h
    cases h
  · rw [heq] at h
    cases h
    rfl

theorem addConstraint_error {c : Constraint Float} {s s' : Solver σ} {m : ModelError}
    (h : Solver.addConstraint c s = (.error m, s')) : s' = s := by
  rcases Solver.addConstraint_cases c s with ⟨all, _, heq⟩ | ⟨m', _, heq⟩
  · rw [heq] at h
    cases h
  · rw [heq] at h
    cases h
    rfl

theorem setStartValues_error {registry : Registry} {values : Assignment} {s s' : Solver σ}
    {m : ModelError} (h : Solver.setStartValues registry values s = (.error m, s')) : s' = s := by
  unfold Solver.setStartValues at h
  split at h
  · cases h
  · cases h
    rfl

variable [Storage δ]

/-- A text is always loaded. -/
theorem perform_loadText_ne_error (text : String) (w w' : Session σ δ) (e : SolverError) :
    perform (.loadText text) w ≠ (.error e, w') := by
  obtain ⟨world, _, heq⟩ := perform_loadText text w
  rw [heq]
  intro h
  cases h

/-- A run fails only if the model has changed. Either nothing has
happened, and would not have with any other engine, or the engine
refused the model. -/
theorem perform_solve_error {times : Durations} {w w' : Session σ δ} {e : SolverError}
    (h : perform (.solve times) w = (.error e, w')) :
    w.solver.dirty = true
      ∧ ((∃ m, e = .model m ∧ w' = w ∧ ∀ engine,
            perform (.solve times) (w.withEngine engine) = (.error (.model m), w.withEngine engine))
        ∨ ∃ vars start b state, e = .backend b
          ∧ w.solver.prepare w.registry = .ok (vars, start)
          ∧ Refuses w.solver.engine.backend w.solver.model (Solver.described w.registry vars) start
            b (Solver.passConfig w.solver.engine.backend w.solver.config
              (w.solver.engine.backend.reset w.solver.engine.state)) state
          ∧ w' = { w with solver := w.solver.withState state }) := by
  obtain ⟨result, solver, files, houtcome, heq⟩ := perform_solve times w
  rw [heq] at h
  cases houtcome with
  | unchanged clean => cases h
  | refused dirty cause =>
      cases h
      refine ⟨dirty, .inl ⟨_, rfl, rfl, fun engine => ?_⟩⟩
      have hsolve := Solver.solve_of_prepare_error
        (s := (w.withEngine engine).solver) dirty cause times (w.withEngine engine).files
      simp only [perform]
      rw [show (w.withEngine engine).registry = w.registry from rfl, hsolve]
      rfl
  | failed dirty prepared cause =>
      cases h
      exact ⟨dirty, .inr ⟨_, _, _, _, rfl, prepared, cause, rfl⟩⟩
  | solved dirty prepared => cases h

/-- A batch fails at its first constraint that is refused and keeps
those before it. -/
theorem perform_addConstraints_error {cs : List (Constraint Float)} {w w' : Session σ δ}
    {e : SolverError} (h : perform (.addConstraints cs) w = (.error e, w')) :
    ∃ before c after m, cs = before ++ c :: after ∧ e = .model m
      ∧ perform (.addConstraints before) w = (.ok .done, w')
      ∧ w'.solver.admitConstraint c = .error m
      ∧ w' = { w with solver := { w.solver with
          model := w.solver.withConstraints before
          constraintVariables := w'.solver.constraintVariables
          dirty := w.solver.dirty || !before.isEmpty } } := by
  rcases Solver.addConstraints_cases cs w.solver with
    ⟨s', heq⟩ | ⟨before, c, after, s', m, hcs, hbefore, hanswer, heq⟩
  · rw [perform, onSolver, heq] at h
    cases h
  · rw [perform, onSolver, heq] at h
    cases h
    refine ⟨before, c, after, m, hcs, rfl, ?_, hanswer, ?_⟩
    · rw [perform, onSolver, hbefore]
    · show Session.mk s' _ _ = _
      rw [Solver.addConstraints_eq hbefore]

/-- Any other failed operation leaves the solver and the variables as they
were, and the files too unless one of them was being written. -/
theorem solver_of_perform_error {op : Operation σ δ} {w w' : Session σ δ} {e : SolverError}
    (h : perform op w = (.error e, w')) (hbatch : ∀ cs, op ≠ .addConstraints cs)
    (hrun : ∀ times, op ≠ .solve times) :
    w'.solver = w.solver ∧ w'.registry = w.registry
      ∧ ((∀ path, op ≠ .writeFile path) → w'.files = w.files) := by
  have hsame : w' = w → w'.solver = w.solver ∧ w'.registry = w.registry
      ∧ ((∀ path, op ≠ .writeFile path) → w'.files = w.files) := by
    intro heq
    rw [heq]
    exact ⟨rfl, rfl, fun _ => rfl⟩
  cases op with
  | configure f => cases h
  | setRelativeGap gap => exact hsame (onSolver_error h fun _ _ => setGap_error)
  | setAbsoluteGap gap => exact hsame (onSolver_error h fun _ _ => setGap_error)
  | resetGaps => cases h
  | setEngine engine => cases h
  | setObjective o => exact hsame (onSolver_error h fun _ _ => setObjective_error)
  | addConstraint c => exact hsame (onSolver_error h fun _ _ => addConstraint_error)
  | addConstraints cs => exact absurd rfl (hbatch cs)
  | setStartValues values => exact hsame (onSolver_error h fun _ _ => setStartValues_error)
  | reset => cases h
  | loadText text => exact absurd h (perform_loadText_ne_error text w w' e)
  | loadFile path =>
      rcases perform_loadFile path w with ⟨text, _, heq⟩ | ⟨e', _, heq⟩
      · rw [heq] at h
        exact absurd h (perform_loadText_ne_error text w w' e)
      · rw [heq] at h
        cases h
        exact hsame rfl
  | writeFile path =>
      obtain ⟨files, heq⟩ := perform_writeFile_snd path w
      rw [h] at heq
      have heq : w' = { w with files } := heq
      rw [heq]
      exact ⟨rfl, rfl, fun hpath => absurd rfl (hpath path)⟩
  | solve times => exact absurd rfl (hrun times)
  | changeVariable op =>
      cases hop : op.apply w.registry with
      | ok registry =>
          simp only [perform, hop] at h
          cases h
      | error m =>
          simp only [perform, hop] at h
          cases h
          exact hsame rfl
  | changeFiles f => cases h

/-- A failed operation leaves the session as it was, but for a batch of
constraints, which keeps those before the one that was refused, for the
engine that refused a model, and for a file that could not be written. -/
theorem perform_error {op : Operation σ δ} {w w' : Session σ δ} {e : SolverError}
    (h : perform op w = (.error e, w')) :
    ((∀ cs, op ≠ .addConstraints cs) → (∀ times, op ≠ .solve times) →
        w'.solver = w.solver ∧ w'.registry = w.registry
          ∧ ((∀ path, op ≠ .writeFile path) → w'.files = w.files))
      ∧ (∀ times, op = .solve times →
        w.solver.dirty = true
          ∧ ((∃ m, e = .model m ∧ w' = w ∧ ∀ engine,
                perform op (w.withEngine engine) = (.error (.model m), w.withEngine engine))
            ∨ ∃ vars start b state, e = .backend b
              ∧ w.solver.prepare w.registry = .ok (vars, start)
              ∧ Refuses w.solver.engine.backend w.solver.model (Solver.described w.registry vars)
                start b (Solver.passConfig w.solver.engine.backend w.solver.config
                  (w.solver.engine.backend.reset w.solver.engine.state)) state
              ∧ w' = { w with solver := w.solver.withState state }))
      ∧ (∀ cs, op = .addConstraints cs →
        ∃ before c after m, cs = before ++ c :: after ∧ e = .model m
          ∧ perform (.addConstraints before) w = (.ok .done, w')
          ∧ w'.solver.admitConstraint c = .error m
          ∧ w' = { w with solver := { w.solver with
              model := w.solver.withConstraints before
              constraintVariables := w'.solver.constraintVariables
              dirty := w.solver.dirty || !before.isEmpty } }) := by
  refine ⟨solver_of_perform_error h, fun times htimes => ?_, fun cs hcs => ?_⟩
  · subst htimes
    exact perform_solve_error h
  · subst hcs
    exact perform_addConstraints_error h

/-- An engine that counts its calls and cannot take constraints. -/
def boundsOnly : Engine Nat where
  backend := {
    name := "bounds"
    features := .ofList [.lp]
    reset := fun _ => 0
    setConsoleOutput := fun _ calls => calls + 1
    addVariable := fun _ calls => (.ok (), calls + 1)
    addConstraint := fun _ calls => (.error (.unsupported "constraints"), calls + 1)
    setObjective := fun _ calls => (.ok (), calls + 1)
    solve := fun calls => (.ok (.optimal, ∅), calls + 1)
  }
  state := 0

/-- A session with that engine and the model `min x` under `x <= 3`. -/
def cappedSession : Session Nat FileTree :=
  run [.changeVariable (.declare "x" (.free .real)),
      .setObjective ⟨.minimize, .ofVariable ⟨0, "x"⟩⟩,
      .addConstraint (.right (.ofVariable ⟨0, "x"⟩) .atMost 3)]
    (start boundsOnly .initial ∅ ∅)

/-- The engine receives a setting, the variable and the objective and
refuses the constraint. All else stays as it is, and the model is still
to be solved. -/
theorem cappedSession_refused :
    perform (.solve .none) cappedSession
        = (.error (.backend (.unsupported "constraints")),
          { cappedSession with solver := cappedSession.solver.withState 4 })
      ∧ cappedSession.solver.dirty = true
      ∧ ∃ vars start state, Refuses boundsOnly.backend cappedSession.solver.model vars start
        (.unsupported "constraints") 1 state ∧ state = 4 := by
  have h : perform (.solve .none) cappedSession
      = (.error (.backend (.unsupported "constraints")),
        { cappedSession with solver := cappedSession.solver.withState 4 }) := rfl
  obtain ⟨hdirty, ⟨m, hm, _⟩ | ⟨vars, start, b, state, hb, _, hrefuses, hw⟩⟩ :=
    (perform_error h).2.1 .none rfl
  · cases hm
  · cases hb
    have hstate : 4 = state := congrArg (fun w => w.solver.engine.state) hw
    exact ⟨h, hdirty, _, _, state, hrefuses, hstate.symm⟩

end Session

end LinearProgram
