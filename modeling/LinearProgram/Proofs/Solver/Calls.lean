import LinearProgram.Proofs.Solver.AlreadySolved
import LinearProgram.Proofs.Solver.Caching
import LinearProgram.Proofs.Solver.Observation
import LinearProgram.Proofs.Solver.UnambiguousNames

/-!
# `LinearProgram.Proofs.Solver.Calls`: the calls of a run

What a run asks of its engine depends on the present settings, model and
start values, and on nothing that has happened before.

* `IsStart` says which start values are passed on, and `prepare_ok` that
  they are where they are valid.
* `solve_observed`: observation changes nothing about a run, and the
  calls are those of `plan`, up to the first that fails.
* `solve_ok_of_lacks`: what a run shows is what its engine has found.

`run_calls` puts these together after any history. Its witness is a
session in which an engine has failed, and start values are left of a
variable that is gone.
-/

set_option autoImplicit false

namespace LinearProgram

namespace Solver

variable {σ : Type}

/-! ### Start values -/

/-- The start value of a variable: the one given for the model, else its
own. -/
def startValue? (registry : Registry) (s : Solver σ) (v : Variable) : Option Float :=
  (s.startValues.get? v).or (registry.attributes v).start

/-- Whether start values either do not count or are all admitted. -/
def HasValidStart (registry : Registry) (s : Solver σ) : Prop :=
  s.config.warmStart = true → ∀ v, s.model.OccursShallow v →
    ∀ value, s.startValue? registry v = some value → registry.admits v value = true

/-- Where start values are admitted they are collected, variable by variable. -/
theorem startAssignment_ok {registry : Registry} {given : Assignment} {vars : List Variable}
    (h : ∀ v ∈ vars, ∀ value, (given.get? v).or (registry.attributes v).start = some value →
      registry.admits v value = true) :
    ∃ start, startAssignment registry given vars = .ok start
      ∧ ∀ v value, start.get? v = some value
        ↔ v ∈ vars ∧ (given.get? v).or (registry.attributes v).start = some value := by
  induction vars with
  | nil => exact ⟨∅, rfl, fun v value => by simp⟩
  | cons u rest ih =>
      obtain ⟨start, hstart, hget⟩ := ih fun v hv => h v (List.mem_cons_of_mem _ hv)
      rw [startAssignment]
      cases hvalue : (given.get? u).or (registry.attributes u).start with
      | none =>
          -- The variable has no start value, so the collection is that of the rest.
          refine ⟨start, hstart, fun v value => ?_⟩
          rw [hget, List.mem_cons]
          constructor
          · rintro ⟨hv, hsome⟩
            exact ⟨.inr hv, hsome⟩
          · rintro ⟨rfl | hv, hsome⟩
            · rw [hvalue] at hsome
              cases hsome
            · exact ⟨hv, hsome⟩
      | some x =>
          have hadmits := h u (List.mem_cons_self ..) x hvalue
          refine ⟨start.insert u x, by simp [hadmits, hstart, Except.map], fun v value => ?_⟩
          rw [OrderedMap.get?_insert, List.mem_cons]
          -- The value at hand is inserted last and wins.
          by_cases hv : v = u
          · subst hv
            rw [if_pos rfl, hvalue]
            simp
          · rw [if_neg hv, hget]
            simp [hv]

/-- Only admitted start values are collected. -/
theorem admits_of_startAssignment {registry : Registry} {given : Assignment}
    {vars : List Variable} {start : Assignment}
    (h : startAssignment registry given vars = .ok start) {v : Variable} (hv : v ∈ vars)
    {value : Float} (hvalue : (given.get? v).or (registry.attributes v).start = some value) :
    registry.admits v value = true := by
  induction vars generalizing start with
  | nil => cases hv
  | cons u rest ih =>
      rw [startAssignment] at h
      split at h
      · rename_i hnone
        rcases List.mem_cons.mp hv with rfl | hv
        · rw [hnone] at hvalue
          cases hvalue
        · exact ih h hv
      · rename_i x hsome
        split at h
        · rename_i hadmits
          rcases List.mem_cons.mp hv with rfl | hv
          · rw [hsome] at hvalue
            cases hvalue
            exact hadmits
          · cases hrest : startAssignment registry given rest with
            | error e => rw [hrest] at h; cases h
            | ok others => exact ih hrest hv
        · cases h

/-- Whether an assignment holds the start values that a run passes on. -/
def IsStart (registry : Registry) (s : Solver σ) (vars : VariableSet) (start : Assignment) :
    Prop :=
  ∀ v value, start.get? v = some value
    ↔ s.config.warmStart = true ∧ v ∈ vars ∧ s.startValue? registry v = some value

/-- A model whose start values are valid is prepared. -/
theorem prepare_ok {registry : Registry} {s : Solver σ} {vars : VariableSet}
    (hvars : s.variableSet = .ok vars) (hvalid : s.HasValidStart registry) :
    ∃ start, s.prepare registry = .ok (vars, start) ∧ s.IsStart registry vars start := by
  cases hwarm : s.config.warmStart with
  | false =>
      refine ⟨∅, by simp [prepare, hvars, hwarm, bind, Except.bind], fun v value => ?_⟩
      simp [hwarm]
  | true =>
      have hadmits : ∀ v ∈ vars.toList, ∀ value, s.startValue? registry v = some value →
          registry.admits v value = true := by
        intro v hv
        exact hvalid hwarm v
          ((Model.mem_variableSet_iff hvars v).mp (VariableSet.mem_toList_iff.mp hv))
      obtain ⟨start, hstart, hget⟩ := startAssignment_ok hadmits
      refine ⟨start, by simp [prepare, hvars, hwarm, hstart, bind, Except.bind], fun v value => ?_⟩
      rw [hget, VariableSet.mem_toList_iff, hwarm]
      simp [startValue?]

/-- A model is prepared only where its start values are valid. -/
theorem hasValidStart_of_prepare {registry : Registry} {s : Solver σ}
    {prepared : VariableSet × Assignment} (h : s.prepare registry = .ok prepared) :
    s.HasValidStart registry := by
  intro hwarm v hv value hvalue
  cases hvars : s.variableSet with
  | error e => simp [prepare, hvars, bind, Except.bind] at h
  | ok vars =>
      cases hstart : startAssignment registry s.startValues vars.toList with
      | error e => simp [prepare, hvars, hwarm, hstart, bind, Except.bind] at h
      | ok start =>
          have hmem := VariableSet.mem_toList_iff.mpr ((Model.mem_variableSet_iff hvars v).mpr hv)
          exact admits_of_startAssignment hstart hmem hvalue

/-- Start values that are passed on are admitted. -/
theorem admits_of_isStart {registry : Registry} {s : Solver σ} {vars : VariableSet}
    {start : Assignment} (hvars : s.variableSet = .ok vars) (hvalid : s.HasValidStart registry)
    (hstart : s.IsStart registry vars start) {v : Variable} {value : Float}
    (h : start.get? v = some value) : registry.admits v value = true := by
  obtain ⟨hwarm, hv, hvalue⟩ := (hstart v value).mp h
  exact hvalid hwarm v ((Model.mem_variableSet_iff hvars v).mp hv) value hvalue

/-! ### Observation of a run -/

/-- The solver with its engine under observation, and with the calls noted
so far. -/
def observed (s : Solver σ) (calls : List Call) : Solver (σ × List Call) where
  engine := ⟨s.engine.backend.observed, (s.engine.state, calls)⟩
  config := s.config
  model := s.model
  constraintVariables := s.constraintVariables
  startValues := s.startValues
  solution := s.solution
  status := s.status
  dirty := s.dirty

/-- Whether a solution is one that an engine has found, with the values of
binary and integer variables rounded, and with the times of the run. -/
structure IsRounded (registry : Registry) (times : Durations) (found solution : Solution) :
    Prop where
  objective : solution.objective = found.objective
  values : ∀ v, solution.value? v = (found.value? v).map fun x =>
    if (registry.attributes v).kind.isIntegral then Binary64.roundHalfAway x else x
  times : solution.times = times

theorem get?_roundIntegral (registry : Registry) (values : Assignment) (v : Variable) :
    (roundIntegral registry values).get? v = (values.get? v).map fun x =>
      if (registry.attributes v).kind.isIntegral then Binary64.roundHalfAway x else x := by
  unfold roundIntegral
  cases hv : values.get? v with
  | none =>
      refine OrderedMap.get?_ofList_eq_none fun p hp hkey => ?_
      obtain ⟨⟨w, x⟩, hw, rfl⟩ := List.mem_map.mp hp
      cases hkey
      rw [OrderedMap.mem_toList_iff.mp hw] at hv
      cases hv
  | some x =>
      refine OrderedMap.get?_ofList
        (List.mem_map.mpr ⟨(v, x), OrderedMap.mem_toList_iff.mpr hv, rfl⟩) fun y hy => ?_
      obtain ⟨⟨w, x'⟩, hw, heq⟩ := List.mem_map.mp hy
      cases heq
      rw [OrderedMap.mem_toList_iff.mp hw] at hv
      cases hv
      rfl

/-- Whether the engine of a solver finds a solution, and has a state in
the end, once it has been told everything that a run calls for. -/
def Finds (registry : Registry) (s : Solver σ) (vars : VariableSet) (start : Assignment)
    (status : Status) (found : Solution) (state : σ) : Prop :=
  ∃ before,
    Action.each s.engine.backend.tell
        (commands s.config s.model (described registry vars) start) s.engine.state
      = (.ok (), before)
    ∧ s.engine.backend.solve before = (.ok (status, found), state)

/-- A run of the engine is an error or a solution that is then prepared. -/
theorem solveFresh_eq (registry : Registry) (times : Durations) (vars : VariableSet)
    (start : Assignment) (s : Solver σ) :
    solveFresh registry times vars start s
      = match runEngine s.engine.backend s.config s.model (described registry vars) start
          s.engine.state with
        | (.ok (status, found), state) => (.ok status, { s.withState state with
            solution := { found with values := roundIntegral registry found.values, times } })
        | (.error e, state) => (.error e, s.withState state) := rfl

/-- Where an engine succeeds it has been told all the commands, and the
solution is the one that it found then. -/
theorem solveFresh_ok {registry : Registry} {times : Durations} {vars : VariableSet}
    {start : Assignment} {s s' : Solver σ} {status : Status}
    (h : solveFresh registry times vars start s = (.ok status, s')) :
    ∃ found, s.Finds registry vars start status found s'.engine.state
      ∧ IsRounded registry times found s'.solution := by
  rw [solveFresh_eq, runEngine_eq, Action.bind_apply] at h
  rcases htold : Action.each s.engine.backend.tell
    (commands s.config s.model (described registry vars) start) s.engine.state
    with ⟨e | ⟨⟩, before⟩
  · rw [htold] at h
    cases h
  · rw [htold] at h
    rcases hsolve : s.engine.backend.solve before with ⟨e | ⟨status', found⟩, state⟩
    · simp only [hsolve] at h
      cases h
    · simp only [hsolve] at h
      cases h
      exact ⟨found, ⟨before, htold, hsolve⟩, rfl, get?_roundIntegral registry found.values, rfl⟩

/-- Observation changes nothing about a run of the engine. -/
theorem solveFresh_observed (registry : Registry) (times : Durations) (vars : VariableSet)
    (start : Assignment) (s : Solver σ) (calls : List Call) :
    ∃ asked, asked <+: plan s.config s.model (described registry vars) start
      ∧ ((solveFresh registry times vars start s).1.isOk = true →
        asked = plan s.config s.model (described registry vars) start)
      ∧ solveFresh registry times vars start (s.observed calls)
        = ((solveFresh registry times vars start s).1,
          (solveFresh registry times vars start s).2.observed (calls ++ asked)) := by
  obtain ⟨asked, hbegun, hall, heq⟩ := runEngine_observed s.engine.backend s.config s.model
    (described registry vars) start s.engine.state calls
  have hstep : runEngine (s.observed calls).engine.backend (s.observed calls).config
      (s.observed calls).model (described registry vars) start (s.observed calls).engine.state
      = _ := heq
  refine ⟨asked, hbegun, fun hok => hall ?_, ?_⟩
  · rw [solveFresh_eq] at hok
    rcases hrun : runEngine s.engine.backend s.config s.model (described registry vars) start
      s.engine.state with ⟨e | found, state⟩
    · rw [hrun] at hok
      cases hok
    · rfl
  · rw [solveFresh_eq, solveFresh_eq, hstep]
    rcases runEngine s.engine.backend s.config s.model (described registry vars) start
      s.engine.state with ⟨e | found, state⟩ <;> rfl

variable {δ : Type} [Storage δ]

/-- Observation changes nothing about a run, with or without a cache, and
what an engine receives is what has been planned, up to a failure. -/
theorem solve_observed {registry : Registry} {s : Solver σ} {files : δ} {vars : VariableSet}
    {start : Assignment} (hdirty : s.dirty = true)
    (hprepare : s.prepare registry = .ok (vars, start))
    (hlacks : s.LacksOptimum registry files vars) (times : Durations) (calls : List Call) :
    ∃ asked, asked <+: plan s.config s.model (described registry vars) start
      ∧ ((solve registry times (s, files)).1.isOk = true →
        asked = plan s.config s.model (described registry vars) start)
      ∧ solve registry times (s.observed calls, files)
        = ((solve registry times (s, files)).1,
          ((solve registry times (s, files)).2.1.observed (calls ++ asked),
            (solve registry times (s, files)).2.2)) := by
  obtain ⟨asked, hbegun, hall, heq⟩ := solveFresh_observed registry times vars start s calls
  -- The observed solver has the same model and the same settings.
  have hdirty' : (s.observed calls).dirty = true := hdirty
  have hprepare' : (s.observed calls).prepare registry = .ok (vars, start) := hprepare
  have hlacks' : (s.observed calls).LacksOptimum registry files vars := hlacks
  refine ⟨asked, hbegun, ?_, ?_⟩
  all_goals rcases hfresh : solveFresh registry times vars start s with ⟨e | status, s'⟩
  · rw [solve_of_fresh_error hdirty hprepare hlacks hfresh]
    exact nofun
  · exact fun _ => hall (by rw [hfresh]; rfl)
  · rw [hfresh] at heq
    rw [solve_of_fresh_error hdirty hprepare hlacks hfresh,
      solve_of_fresh_error hdirty' hprepare' hlacks' heq]
  · rw [hfresh] at heq
    rw [solve_of_fresh_ok hdirty hprepare hlacks hfresh,
      solve_of_fresh_ok hdirty' hprepare' hlacks' heq]
    rfl

/-- What a run that asks its engine answers with success was found by the
engine, and is shown unless a feasible solution is kept and the time ran
out. -/
theorem solve_ok_of_lacks {registry : Registry} {times : Durations} {s s' : Solver σ}
    {files files' : δ} {vars : VariableSet} {start : Assignment} {status : Status}
    (hdirty : s.dirty = true) (hprepare : s.prepare registry = .ok (vars, start))
    (hlacks : s.LacksOptimum registry files vars)
    (h : solve registry times (s, files) = (.ok status, (s', files'))) :
    ∃ reported found, s.Finds registry vars start reported found s'.engine.state
      ∧ ((reported = .timeoutInfeasible → ∀ cache f, s.cache? = some cache →
          ¬ cache.Keeps files .feasible (s.key registry vars) f) →
        status = reported ∧ IsRounded registry times found s'.solution) := by
  rcases hfresh : solveFresh registry times vars start s with ⟨e | reported, s₁⟩
  · rw [solve_of_fresh_error hdirty hprepare hlacks hfresh] at h
    cases h
  · obtain ⟨found, hfinds, hrounded⟩ := solveFresh_ok hfresh
    rw [solve_of_fresh_ok hdirty hprepare hlacks hfresh] at h
    cases h
    refine ⟨reported, found, hfinds, fun hmissing => ?_⟩
    rw [shown_of_missing hmissing]
    exact ⟨rfl, hrounded⟩

end Solver

namespace Session

variable {σ δ : Type}

/-- The session with the engine of its solver under observation, and with
the calls noted so far. -/
def observed (w : Session σ δ) (calls : List Call) : Session (σ × List Call) δ where
  solver := w.solver.observed calls
  registry := w.registry
  files := w.files

variable [Storage δ]

/-- Whatever has happened, a run of a model that has changed, where the
start values are valid and no optimum is kept, makes the calls of `plan`
for the present settings, model and start values. An engine that fails
receives them up to the failure. Of one that succeeds the solution is
shown, unless a feasible one is kept and its time ran out. -/
theorem run_calls {engine : Engine σ} {config : Config} {registry : Registry} {files : δ}
    {ops : List (Operation σ δ)} {w : Session σ δ}
    (hrun : run ops (start engine config registry files) = w) (hdirty : w.solver.dirty = true)
    (hvalid : w.solver.HasValidStart w.registry)
    (hlacks : ∀ vars, w.solver.variableSet = .ok vars →
      w.solver.LacksOptimum w.registry w.files vars) (times : Durations) :
    ∃ vars start calls, w.solver.variableSet = .ok vars
      ∧ vars.toList.Pairwise (fun v u => v.name < u.name)
      ∧ w.solver.IsStart w.registry vars start
      ∧ (∀ v value, start.get? v = some value → w.registry.admits v value = true)
      ∧ calls <+: plan w.solver.config w.solver.model (Solver.described w.registry vars) start
      ∧ perform (.solve times) (w.observed [])
        = ((perform (.solve times) w).1, (perform (.solve times) w).2.observed calls)
      ∧ ∀ answer, (perform (.solve times) w).1 = .ok answer →
        calls = plan w.solver.config w.solver.model (Solver.described w.registry vars) start
        ∧ ∃ status found,
          w.solver.Finds w.registry vars start status found
              (perform (.solve times) w).2.solver.engine.state
          ∧ ((status = .timeoutInfeasible → ∀ cache f, w.solver.cache? = some cache →
                ¬ cache.Keeps w.files .feasible (w.solver.key w.registry vars) f) →
            answer = .status status
              ∧ Solver.IsRounded w.registry times found
                (perform (.solve times) w).2.solver.solution) := by
  subst hrun
  set w := run ops (start engine config registry files)
  -- History enters only here: it has kept the model and its variables in step.
  have hstep : w.solver.IsInStep := isInStep_run (isInStep_start engine config registry files) ops
  obtain ⟨vars, hvars⟩ := hstep.exists_variableSet
  obtain ⟨given, hprepare, hstart⟩ := Solver.prepare_ok hvars hvalid
  obtain ⟨calls, hbegun, hall, hobserved⟩ :=
    Solver.solve_observed hdirty hprepare (hlacks vars hvars) times []
  refine ⟨vars, given, calls, hvars, vars.pairwise_toList, hstart,
    fun v value => Solver.admits_of_isStart hvars hvalid hstart, hbegun, ?_, ?_⟩
  · -- The answer is the same, and so is everything but the notes.
    have hsolve : Solver.solve (w.observed []).registry times
        ((w.observed []).solver, (w.observed []).files) = _ := hobserved
    rw [perform_solve_apply, perform_solve_apply, hsolve]
    rfl
  · rcases hsolve : Solver.solve w.registry times (w.solver, w.files)
      with ⟨e | status, solver, files'⟩
    · rw [perform_solve_apply, hsolve]
      exact nofun
    · obtain ⟨reported, found, hfinds, hshown⟩ :=
        Solver.solve_ok_of_lacks hdirty hprepare (hlacks vars hvars) hsolve
      rw [perform_solve_apply, hsolve]
      intro answer hanswer
      cases hanswer
      refine ⟨hall (by rw [hsolve]; rfl), reported, found, hfinds, fun hmissing => ?_⟩
      obtain ⟨rfl, hrounded⟩ := hshown hmissing
      exact ⟨rfl, hrounded⟩

/-- An engine that cannot be used. -/
def failing : Engine Unit where
  backend := { instant.backend with solve := .fail (.executionFailed "no licence") }
  state := ()

/-- A session that has failed with one engine. With the next one threads
and start values count: one that `y` has itself, and one that is given for
`x` in place of its own. Another is given for a variable that has left the
model. -/
def warmSession : Session Unit FileTree :=
  run [.changeVariable (.declare "x" (.bounded .real 0 10)),
      .changeVariable (.declare "y" (.bounded .integer 0 10)),
      .changeVariable (.declare "z" (.bounded .real 0 10)),
      .setObjective ⟨.maximize, .ofVariable ⟨2, "z"⟩⟩,
      .setObjective ⟨.maximize, .ofVariable ⟨0, "x"⟩⟩,
      .addConstraint (.right (.ofVariable ⟨1, "y"⟩) .atMost 3),
      .solve .none,
      .changeVariable (.setStart ⟨0, "x"⟩ (some 1)),
      .changeVariable (.setStart ⟨1, "y"⟩ (some 2)),
      .setStartValues (.ofList [(⟨0, "x"⟩, 4), (⟨2, "z"⟩, 5)]),
      .configure fun c => { c with threads := 4, warmStart := true },
      .setEngine (reporting .feasible (.of 3 (.ofList [(⟨0, "x"⟩, 3)])))]
    (start failing { Config.initial with cacheDir := some "cache" } ∅ ∅)

/-- The engine is told the threads and two start values, and finds what it
found before. -/
theorem warmSession_calls :
    warmSession.solver.dirty = true ∧ warmSession.solver.HasValidStart warmSession.registry
      ∧ (∀ vars, warmSession.solver.variableSet = .ok vars →
        warmSession.solver.LacksOptimum warmSession.registry warmSession.files vars)
      ∧ ∃ vars start calls, warmSession.solver.variableSet = .ok vars
        ∧ start.get? ⟨0, "x"⟩ = some 4 ∧ start.get? ⟨1, "y"⟩ = some 2
        ∧ start.get? ⟨2, "z"⟩ = none
        ∧ calls = plan warmSession.solver.config warmSession.solver.model
          (Solver.described warmSession.registry vars) start
        ∧ (perform (.solve .none) (warmSession.observed [])).2
          = (perform (.solve .none) warmSession).2.observed calls := by
  have hdirty : warmSession.solver.dirty = true := by decide +kernel
  have hwarm : warmSession.solver.config.warmStart = true := by decide +kernel
  have hdir : warmSession.solver.config.cacheDir = some "cache" := by decide +kernel
  have hprepared : (warmSession.solver.prepare warmSession.registry).isOk = true := by
    decide +kernel
  have hmembers : warmSession.solver.variableSet.toOption.map VariableSet.toList
      = some [⟨0, "x"⟩, ⟨1, "y"⟩] := by decide +kernel
  have hx : warmSession.solver.startValue? warmSession.registry ⟨0, "x"⟩ = some 4 := by
    decide +kernel
  have hy : warmSession.solver.startValue? warmSession.registry ⟨1, "y"⟩ = some 2 := by
    decide +kernel
  have hempty : (warmSession.solver.variableSet.toOption.map fun vars =>
      Cache.holds ⟨Path.ofText "cache"⟩ warmSession.files .optimal
        (warmSession.solver.key warmSession.registry vars)) = some false := by
    decide +kernel
  have hsucceeds : (perform (.solve .none) warmSession).1.isOk = true := by decide +kernel
  have hrun : run _ (start _ _ _ _) = warmSession := rfl
  -- What has been computed is all that is needed of the session.
  generalize warmSession = w at *
  have hvalid : w.solver.HasValidStart w.registry := by
    cases hprepare : w.solver.prepare w.registry with
    | error e => rw [hprepare] at hprepared; cases hprepared
    | ok prepared => exact Solver.hasValidStart_of_prepare hprepare
  have hlacks : ∀ vars, w.solver.variableSet = .ok vars →
      w.solver.LacksOptimum w.registry w.files vars := by
    intro vars hvars cache f hcache hkeeps
    rw [Solver.cache?, hdir] at hcache
    cases hcache
    rw [hvars] at hempty
    exact Bool.noConfusion (hkeeps.present.symm.trans (Option.some.inj hempty))
  obtain ⟨vars, start, calls, hvars, _, hstart, _, _, hobserved, hall⟩ :=
    run_calls hrun hdirty hvalid hlacks .none
  have hlist : vars.toList = [⟨0, "x"⟩, ⟨1, "y"⟩] := by
    rw [hvars] at hmembers
    exact Option.some.inj hmembers
  refine ⟨hdirty, hvalid, hlacks, vars, start, calls, hvars, ?_, ?_, ?_, ?_, ?_⟩
  · exact (hstart _ _).mpr ⟨hwarm, VariableSet.mem_toList_iff.mp (by simp [hlist]), hx⟩
  · exact (hstart _ _).mpr ⟨hwarm, VariableSet.mem_toList_iff.mp (by simp [hlist]), hy⟩
  · refine Option.eq_none_iff_forall_ne_some.mpr fun value hvalue => ?_
    have hz := VariableSet.mem_toList_iff.mpr ((hstart _ _).mp hvalue).2.1
    simp [hlist] at hz
  · cases hanswer : (perform (.solve .none) w).1 with
    | error e => rw [hanswer] at hsucceeds; cases hsucceeds
    | ok answer => exact (hall answer hanswer).1
  · rw [hobserved]

end Session

end LinearProgram
