import LinearProgram.Proofs.Binary64.Order
import LinearProgram.Proofs.Solver.Calls

/-!
# `LinearProgram.Proofs.Solver.Settings`: the numeric settings that an engine receives

Settings are checked where a solver is made from them and where a gap is
set. An edit at will is not checked, and neither are the settings that a
run passes on.

* `Config.validate_eq_ok_iff` says which settings are valid, and
  `Config.settings` lists those that are passed on.
* `runEngine_settings`: in a run an engine receives these and no other
  numeric settings. `Solver.solve_settings` says so of a solver.
* `validate_perform` is the step of a session, for every operation but
  an edit at will, and `exists_configure_of_not_valid` the run.
* `settings_received` puts these together: an engine receives only legal
  values exactly where the settings are valid, which edits decide.
-/

set_option autoImplicit false

namespace LinearProgram

/-! ### Legal values -/

namespace Config

/-- Only a number is zero or above. -/
theorem isNaN_of_zero_le {x : Float} (h : 0 ≤ x) : x.isNaN = false := by
  rw [← Bool.not_eq_true, Binary64.isNaN_iff, Nat.not_lt]
  rcases (Binary64.le_iff 0 x).mp h with hlt | heq
  · exact (Binary64.zero_lt_iff.mp ((Binary64.lt_iff 0 x).mpr hlt)).2.2
  · rw [Binary64.unpack_toModel, Binary64.unpack_toModel, Binary64.compare_unpacked_eq_iff] at heq
    exact heq.2.1

/-- A legal value is a number. -/
theorem isNaN_of_isLegal {k : Knob} {x : Float} (h : isLegal k x = true) : x.isNaN = false := by
  have hpositive (h : 0 < x) : x.isNaN = false := by
    rw [← Bool.not_eq_true, Binary64.isNaN_iff, Nat.not_lt]
    exact (Binary64.zero_lt_iff.mp h).2.2
  cases k with
  | timeLimit => exact hpositive (of_decide_eq_true h)
  | integerTolerance => exact hpositive (of_decide_eq_true h)
  | relativeGap => exact isNaN_of_zero_le (of_decide_eq_true h)
  | absoluteGap => exact isNaN_of_zero_le (of_decide_eq_true h)

/-- What a setter of a gap lets through is legal. -/
theorem zero_le_of_setGap {x : Float} (h : (x.isNaN || x < 0) = false) : 0 ≤ x := by
  rw [Bool.or_eq_false_iff, decide_eq_false_iff_not] at h
  have hzero : (0 : Float).isNaN = false := by decide
  rw [Binary64.le_iff_rank hzero h.1]
  rw [Binary64.lt_iff_rank h.1 hzero] at h
  exact Int.not_lt.mp h.2

theorem mem_knobs (k : Knob) : k ∈ knobs := by cases k <;> decide

theorem checkKnob_eq_ok_iff {k : Knob} {value : Option Float} :
    checkKnob k value = .ok () ↔ ∀ x, value = some x → isLegal k x = true := by
  cases value with
  | none => simp [checkKnob]
  | some x =>
      cases hlegal : isLegal k x <;> simp [checkKnob, hlegal]

theorem forM_eq_ok_iff {α ε : Type} {f : α → Except ε Unit} {xs : List α} :
    forM xs f = .ok () ↔ ∀ x ∈ xs, f x = .ok () := by
  induction xs with
  | nil => simp [pure, Except.pure]
  | cons x xs ih =>
      rw [List.forM_cons, List.forall_mem_cons, ← ih]
      cases f x with
      | error e => simp [bind, Except.bind]
      | ok => simp [bind, Except.bind]

/-- Settings are valid if every numeric one is open or has a legal value. -/
theorem validate_eq_ok_iff {c : Config} :
    c.validate = .ok () ↔ ∀ k x, c.knob k = some x → isLegal k x = true := by
  refine forM_eq_ok_iff.trans ⟨fun h k => checkKnob_eq_ok_iff.mp (h k (mem_knobs k)),
    fun h k _ => checkKnob_eq_ok_iff.mpr (h k)⟩

/-- The numeric settings that are not open, in the order in which they
are passed on. -/
def settings (c : Config) : List (Knob × Float) :=
  [Knob.timeLimit, .integerTolerance, .absoluteGap, .relativeGap].filterMap
    fun k => (c.knob k).map (k, ·)

theorem mem_settings {c : Config} {k : Knob} {x : Float} :
    (k, x) ∈ c.settings ↔ c.knob k = some x := by
  cases k <;> simp [settings]

/-- Settings are valid if every value that is passed on is legal. -/
theorem validate_eq_ok_iff_settings {c : Config} :
    c.validate = .ok () ↔ ∀ p ∈ c.settings, isLegal p.1 p.2 = true := by
  rw [validate_eq_ok_iff]
  exact ⟨fun h p hp => h p.1 p.2 (mem_settings.mp hp),
    fun h k x hx => h (k, x) (mem_settings.mpr hx)⟩

end Config

/-! ### The settings among the calls of a run -/

/-- The numeric setting that a command passes on, with its value. -/
def Command.setting? : Command → Option (Knob × Float)
  | .setTimeout x => some (.timeLimit, x)
  | .setIntegerTolerance x => some (.integerTolerance, x)
  | .setAbsoluteGap x => some (.absoluteGap, x)
  | .setRelativeGap x => some (.relativeGap, x)
  | _ => none

/-- The numeric setting that a call passes on, with its value. -/
def Call.setting? : Call → Option (Knob × Float)
  | .tell command => command.setting?
  | .solve => none

theorem filterMap_ofSetting (command : Float → Command) (k : Knob)
    (h : ∀ x, (command x).setting? = some (k, x)) (value : Option Float) :
    (Command.ofSetting command value).filterMap Command.setting?
      = (value.map (k, ·)).toList := by
  cases value with
  | none => rfl
  | some x => simp [Command.ofSetting, h]

/-- The commands for settings pass on each numeric one that is not open. -/
theorem filterMap_setting?_commands (c : Config) :
    c.commands.filterMap Command.setting? = c.settings := by
  have hthreads : (if 0 < c.threads then [Command.setThreads c.threads] else []).filterMap
      Command.setting? = [] := by
    split <;> rfl
  simp only [Config.commands, List.filterMap_append, hthreads,
    filterMap_ofSetting .setTimeout .timeLimit fun _ => rfl,
    filterMap_ofSetting .setIntegerTolerance .integerTolerance fun _ => rfl,
    filterMap_ofSetting .setAbsoluteGap .absoluteGap fun _ => rfl,
    filterMap_ofSetting .setRelativeGap .relativeGap fun _ => rfl]
  rw [Config.settings]
  simp only [List.filterMap_cons, List.filterMap_nil, Config.knob]
  cases c.timeLimit <;> cases c.integerTolerance <;> cases c.absoluteGap
    <;> cases c.relativeGap <;> rfl

section Run

variable {σ : Type} (b : Backend σ) (c : Config) (m : Model)
  (vars : List (Variable × Attributes)) (start : Assignment)

/-- The commands of a run that are not about settings. -/
def modelCommands : List Command :=
  [.addVariables vars, .setObjective m.objective, .addConstraints m.constraints]
    ++ if start.isEmpty then [] else [.setStartValues start]

theorem setting?_of_mem_modelCommands {command : Command}
    (h : command ∈ modelCommands m vars start) : command.setting? = none := by
  unfold modelCommands at h
  split at h <;> simp at h <;> rcases h with rfl | rfl | rfl | rfl <;> rfl

/-- In a run an observed engine receives the settings, which cannot fail,
and then calls that are not about settings. -/
theorem runEngine_settings (s : σ) (calls : List Call) :
    ∃ asked, asked ≠ [] ∧ asked.filterMap Call.setting? = c.settings
      ∧ Solver.runEngine b.observed c m vars start (s, calls)
        = ((Solver.runEngine b c m vars start s).1,
          ((Solver.runEngine b c m vars start s).2, calls ++ asked)) := by
  have hsplit : commands c m vars start = (.reset :: c.commands) ++ modelCommands m vars start :=
    rfl
  have hsettings : Action.each b.tell (.reset :: c.commands) s
      = (.ok (), Solver.passConfig b c (b.reset s)) := by
    rw [Action.each_cons_apply]
    exact each_tell_config b c (b.reset s)
  obtain ⟨told, -, hall, hnoted⟩ := b.each_tell_observed (.reset :: c.commands) s calls
  rw [hall (by rw [hsettings]), hsettings] at hnoted
  obtain ⟨later, hbegun, hlater, heq⟩ := b.each_tell_observed (modelCommands m vars start)
    (Solver.passConfig b c (b.reset s)) (calls ++ (Command.reset :: c.commands).map .tell)
  -- No call of the second part is about a setting.
  have hnone : ∀ call ∈ later.map Call.tell ++ [.solve], call.setting? = none := by
    intro call hcall
    rcases List.mem_append.mp hcall with hcall | hcall
    · obtain ⟨command, hcommand, rfl⟩ := List.mem_map.mp hcall
      exact setting?_of_mem_modelCommands m vars start (hbegun.subset hcommand)
    · rw [List.mem_singleton.mp hcall]
      rfl
  have hfirst : ((Command.reset :: c.commands).map Call.tell).filterMap Call.setting?
      = c.settings := by
    rw [List.filterMap_map]
    exact filterMap_setting?_commands c
  rw [runEngine_eq, runEngine_eq, hsplit, Action.bind_apply, Action.bind_apply,
    Action.each_append hsettings, Action.each_append hnoted, heq]
  rcases Action.each b.tell (modelCommands m vars start) (Solver.passConfig b c (b.reset s))
    with ⟨e | ⟨⟩, s'⟩
  · refine ⟨(Command.reset :: c.commands).map .tell ++ later.map .tell, by simp, ?_, ?_⟩
    · rw [List.filterMap_append, hfirst, List.filterMap_eq_nil_iff.mpr, List.append_nil]
      exact fun call hcall => hnone call (List.mem_append_left _ hcall)
    · rw [List.append_assoc]
  · refine ⟨(Command.reset :: c.commands).map .tell ++ (later.map .tell ++ [.solve]), by simp, ?_,
      ?_⟩
    · rw [List.filterMap_append, hfirst, List.filterMap_eq_nil_iff.mpr hnone, List.append_nil]
    · rw [← List.append_assoc, ← List.append_assoc]
      rfl

end Run

namespace Solver

variable {σ δ : Type}

/-! ### Operations and the settings -/

theorem config_setObjective (o : Objective) (s : Solver σ) :
    (setObjective o s).2.config = s.config := by
  rcases setObjective_cases o s with ⟨_, heq⟩ | ⟨e, _, heq⟩ <;> rw [heq]

theorem config_addConstraint (c : Constraint Float) (s : Solver σ) :
    (addConstraint c s).2.config = s.config := by
  rcases addConstraint_cases c s with ⟨all, _, heq⟩ | ⟨e, _, heq⟩ <;> rw [heq]

theorem config_addConstraints (cs : List (Constraint Float)) (s : Solver σ) :
    (addConstraints cs s).2.config = s.config := by
  induction cs generalizing s with
  | nil => rfl
  | cons c rest ih =>
      have hfirst := config_addConstraint c s
      rw [addConstraints, Action.each_cons_apply]
      rcases haction : addConstraint c s with ⟨e | ⟨⟩, s'⟩ <;> rw [haction] at hfirst
      · exact hfirst
      · exact (ih s').trans hfirst

theorem config_setStartValues (registry : Registry) (values : Assignment) (s : Solver σ) :
    (setStartValues registry values s).2.config = s.config := by
  unfold setStartValues
  split <;> rfl

theorem config_loadText (text : String) (s : Solver σ) (registry : Registry) :
    (loadText text (s, registry)).2.1.config = s.config := by
  obtain ⟨all, heq, _⟩ := loadText_eq text s registry
  rw [heq]

theorem config_of_solveOutcome {registry : Registry} {s s' : Solver σ} {files files' : δ}
    {result : Except SolverError Status} (h : SolveOutcome registry s files result s' files') :
    s'.config = s.config := by
  cases h <;> rfl

/-- A setter of a gap leaves valid settings valid, as it takes only legal
values. -/
theorem validate_setGap {s : Solver σ} (h : s.config.validate = .ok ()) {k : Knob} {gap : Float}
    {f : Config → Config}
    (hf : ∀ j x, (f s.config).knob j = some x → s.config.knob j = some x ∨ j = k ∧ x = gap)
    (hk : 0 ≤ gap → Config.isLegal k gap = true) :
    (setGap k gap f s).2.config.validate = .ok () := by
  unfold setGap
  split
  · exact h
  · rename_i hgap
    refine Config.validate_eq_ok_iff.mpr fun j x hx => ?_
    rcases hf j x hx with hold | ⟨rfl, rfl⟩
    · exact Config.validate_eq_ok_iff.mp h j x hold
    · exact hk (Config.zero_le_of_setGap (Bool.eq_false_iff.mpr hgap))

/-! ### Runs and the settings -/

variable [Storage δ]

/-- Whether a run asks the engine: the model has changed, it is prepared,
and no optimum is kept for it. -/
def AsksEngine (registry : Registry) (s : Solver σ) (files : δ) : Prop :=
  s.dirty = true ∧ ∃ vars start, s.prepare registry = .ok (vars, start)
    ∧ s.LacksOptimum registry files vars

/-- Where observation of the engine's part changes nothing, it changes
nothing about a run that asks the engine. -/
theorem solve_of_observed {registry : Registry} {times : Durations} {s : Solver σ} {files : δ}
    {vars : VariableSet} {start : Assignment} {calls noted : List Call} (hdirty : s.dirty = true)
    (hprepare : s.prepare registry = .ok (vars, start))
    (hlacks : s.LacksOptimum registry files vars)
    (h : solveFresh registry times vars start (s.observed calls)
      = ((solveFresh registry times vars start s).1,
        (solveFresh registry times vars start s).2.observed noted)) :
    solve registry times (s.observed calls, files)
      = ((solve registry times (s, files)).1,
        ((solve registry times (s, files)).2.1.observed noted,
          (solve registry times (s, files)).2.2)) := by
  -- The observed solver has the same model and the same settings.
  have hdirty' : (s.observed calls).dirty = true := hdirty
  have hprepare' : (s.observed calls).prepare registry = .ok (vars, start) := hprepare
  have hlacks' : (s.observed calls).LacksOptimum registry files vars := hlacks
  rcases hfresh : solveFresh registry times vars start s with ⟨e | status, s'⟩
  · rw [hfresh] at h
    rw [solve_of_fresh_error hdirty hprepare hlacks hfresh,
      solve_of_fresh_error hdirty' hprepare' hlacks' h]
  · rw [hfresh] at h
    rw [solve_of_fresh_ok hdirty hprepare hlacks hfresh,
      solve_of_fresh_ok hdirty' hprepare' hlacks' h]
    rfl

/-- A run that asks the engine passes all the settings on, whatever they
are. -/
theorem solve_settings {registry : Registry} {s : Solver σ} {files : δ}
    (hasks : s.AsksEngine registry files) (times : Durations) (calls : List Call) :
    ∃ asked, asked ≠ [] ∧ asked.filterMap Call.setting? = s.config.settings
      ∧ solve registry times (s.observed calls, files)
        = ((solve registry times (s, files)).1,
          ((solve registry times (s, files)).2.1.observed (calls ++ asked),
            (solve registry times (s, files)).2.2)) := by
  obtain ⟨hdirty, vars, start, hprepare, hlacks⟩ := hasks
  obtain ⟨asked, hne, hsettings, hrun⟩ := runEngine_settings s.engine.backend s.config s.model
    (described registry vars) start s.engine.state calls
  have hstep : runEngine (s.observed calls).engine.backend (s.observed calls).config
      (s.observed calls).model (described registry vars) start (s.observed calls).engine.state
      = _ := hrun
  refine ⟨asked, hne, hsettings, solve_of_observed hdirty hprepare hlacks ?_⟩
  rw [solveFresh_eq, solveFresh_eq, hstep]
  rcases runEngine s.engine.backend s.config s.model (described registry vars) start
    s.engine.state with ⟨e | found, state⟩ <;> rfl

/-- A run that does not ask the engine makes no calls. -/
theorem solve_without_calls {registry : Registry} {s : Solver σ} {files : δ}
    (hasks : ¬ s.AsksEngine registry files) (times : Durations) (calls : List Call) :
    solve registry times (s.observed calls, files)
      = ((solve registry times (s, files)).1,
        ((solve registry times (s, files)).2.1.observed calls,
          (solve registry times (s, files)).2.2)) := by
  cases hdirty : s.dirty with
  | false =>
      have hdirty' : (s.observed calls).dirty = false := hdirty
      rw [solve_of_clean hdirty, solve_of_clean hdirty']
  | true =>
      have hdirty' : (s.observed calls).dirty = true := hdirty
      cases hprepare : s.prepare registry with
      | error e =>
          have hprepare' : (s.observed calls).prepare registry = .error e := hprepare
          rw [solve_of_prepare_error hdirty hprepare, solve_of_prepare_error hdirty' hprepare']
      | ok prepared =>
          obtain ⟨vars, start⟩ := prepared
          have hprepare' : (s.observed calls).prepare registry = .ok (vars, start) := hprepare
          -- What is left is an optimum that is kept.
          have hkept : ¬ s.LacksOptimum registry files vars := fun hlacks =>
            hasks ⟨hdirty, vars, start, hprepare, hlacks⟩
          simp only [LacksOptimum, not_forall, not_not] at hkept
          obtain ⟨cache, f, hcache, hkeeps⟩ := hkept
          have hcache' : (s.observed calls).cache? = some cache := hcache
          rw [solve_of_kept hdirty hprepare hcache hkeeps,
            solve_of_kept hdirty' hprepare' hcache' hkeeps]
          rfl

end Solver

/-! ### The settings of a session -/

namespace Session

variable {σ δ : Type} [Storage δ]

theorem config_perform_loadText (text : String) (w : Session σ δ) :
    (perform (.loadText text) w).2.solver.config = w.solver.config := by
  obtain ⟨world, hload, heq⟩ := perform_loadText text w
  have hconfig := Solver.config_loadText text w.solver w.registry
  rw [hload] at hconfig
  rw [heq]
  exact hconfig

/-- Everything but an edit at will leaves valid settings valid. -/
theorem validate_perform {w : Session σ δ} (h : w.solver.config.validate = .ok ())
    {op : Operation σ δ} (hop : ∀ f, op ≠ .configure f) :
    (perform op w).2.solver.config.validate = .ok () := by
  cases op with
  | configure f => exact absurd rfl (hop f)
  | setRelativeGap gap =>
      rw [perform, onSolver_snd]
      refine Solver.validate_setGap h (fun j x hx => ?_) fun hgap => decide_eq_true hgap
      cases j with
      | relativeGap => exact .inr ⟨rfl, (Option.some.inj hx).symm⟩
      | timeLimit | integerTolerance | absoluteGap => exact .inl hx
  | setAbsoluteGap gap =>
      rw [perform, onSolver_snd]
      refine Solver.validate_setGap h (fun j x hx => ?_) fun hgap => decide_eq_true hgap
      cases j with
      | absoluteGap => exact .inr ⟨rfl, (Option.some.inj hx).symm⟩
      | timeLimit | integerTolerance | relativeGap => exact .inl hx
  | resetGaps =>
      refine Config.validate_eq_ok_iff.mpr fun j x hx => ?_
      cases j with
      | relativeGap | absoluteGap => cases hx
      | timeLimit | integerTolerance => exact Config.validate_eq_ok_iff.mp h _ x hx
  | setEngine engine => exact h
  | setObjective o =>
      rw [perform, onSolver_snd, Solver.config_setObjective]
      exact h
  | addConstraint c =>
      rw [perform, onSolver_snd, Solver.config_addConstraint]
      exact h
  | addConstraints cs =>
      rw [perform, onSolver_snd, Solver.config_addConstraints]
      exact h
  | setStartValues values =>
      rw [perform, onSolver_snd, Solver.config_setStartValues]
      exact h
  | reset => exact h
  | loadText text =>
      rw [config_perform_loadText]
      exact h
  | loadFile path =>
      rcases perform_loadFile path w with ⟨text, _, heq⟩ | ⟨e, _, heq⟩
      · rw [heq, config_perform_loadText]
        exact h
      · rw [heq]
        exact h
  | writeFile path =>
      obtain ⟨files, heq⟩ := perform_writeFile_snd path w
      rw [heq]
      exact h
  | solve times =>
      obtain ⟨result, solver, files, houtcome, heq⟩ := perform_solve times w
      rw [heq, Solver.config_of_solveOutcome houtcome]
      exact h
  | changeVariable op =>
      obtain ⟨registry, heq⟩ := perform_changeVariable_snd op w
      rw [heq]
      exact h
  | changeFiles f => exact h

/-- No run fails for a setting. -/
theorem perform_solve_ne_invalidParameter (w : Session σ δ) (times : Durations) (k : Knob)
    (x : Float) : (perform (.solve times) w).1 ≠ .error (.model (.invalidParameter k x)) := by
  intro heq
  obtain ⟨result, solver, files, houtcome, hsolve⟩ := perform_solve times w
  rw [hsolve] at heq
  cases houtcome with
  | unchanged clean => cases heq
  | refused dirty cause =>
      cases heq
      rcases Solver.prepare_error cause with hvars | ⟨name, value, hstart⟩
      · rcases w.solver.model.variableSet_cases with ⟨vars, hok, -⟩ | ⟨v, u, herror, -⟩
        · cases hvars.symm.trans hok
        · cases hvars.symm.trans herror
      · cases hstart
  | failed dirty prepared cause => cases heq
  | solved dirty prepared => cases heq

/-- Settings of a session that are not valid come from an edit at will,
which has found valid ones. -/
theorem exists_configure_of_not_valid {w : Session σ δ} (h : w.solver.config.validate = .ok ())
    {ops : List (Operation σ δ)} (hlast : (run ops w).solver.config.validate ≠ .ok ()) :
    ∃ before f after, ops = before ++ .configure f :: after
      ∧ (run before w).solver.config.validate = .ok ()
      ∧ (f (run before w).solver.config).validate ≠ .ok () := by
  induction ops generalizing w with
  | nil => exact absurd h hlast
  | cons op rest ih =>
      by_cases hnext : (perform op w).2.solver.config.validate = .ok ()
      · obtain ⟨before, f, after, rfl, hbefore, hafter⟩ := ih hnext hlast
        exact ⟨op :: before, f, after, rfl, hbefore, hafter⟩
      · -- The first operation has done it, so it is an edit.
        by_cases hop : ∃ f, op = .configure f
        · obtain ⟨f, rfl⟩ := hop
          exact ⟨[], f, rest, rfl, h, hnext⟩
        · exact absurd (validate_perform h fun f hf => hop ⟨f, hf⟩) hnext

/-- Settings are checked where a solver is made and where a gap is set,
and nowhere else. In a session that begins with valid settings, only an
edit at will makes them invalid. A run never fails for a setting. If it
asks its engine at all, the engine receives each numeric setting that is
not open, so that it receives legal values if and only if the settings
are valid. -/
theorem settings_received {engine : Engine σ} {config : Config} {registry : Registry} {files : δ}
    {ops : List (Operation σ δ)} {w : Session σ δ} (hconfig : config.validate = .ok ())
    (hrun : run ops (start engine config registry files) = w) :
    (w.solver.config.validate ≠ .ok () →
        ∃ before f after, ops = before ++ .configure f :: after
          ∧ (run before (start engine config registry files)).solver.config.validate = .ok ()
          ∧ (f (run before (start engine config registry files)).solver.config).validate ≠ .ok ())
      ∧ ∀ times, (∀ k x, (perform (.solve times) w).1 ≠ .error (.model (.invalidParameter k x)))
        ∧ ∃ calls, perform (.solve times) (w.observed [])
            = ((perform (.solve times) w).1, (perform (.solve times) w).2.observed calls)
          ∧ (calls ≠ [] ↔ w.solver.AsksEngine w.registry w.files)
          ∧ (calls ≠ [] → calls.filterMap Call.setting? = w.solver.config.settings
            ∧ ((∀ p ∈ calls.filterMap Call.setting?, Config.isLegal p.1 p.2 = true)
              ↔ w.solver.config.validate = .ok ())) := by
  subst hrun
  refine ⟨exists_configure_of_not_valid hconfig, fun times => ?_⟩
  set w := run ops (start engine config registry files)
  refine ⟨perform_solve_ne_invalidParameter w times, ?_⟩
  have hperform : ∀ calls, Solver.solve w.registry times (w.solver.observed [], w.files)
      = ((Solver.solve w.registry times (w.solver, w.files)).1,
        ((Solver.solve w.registry times (w.solver, w.files)).2.1.observed calls,
          (Solver.solve w.registry times (w.solver, w.files)).2.2)) →
      perform (.solve times) (w.observed [])
        = ((perform (.solve times) w).1, (perform (.solve times) w).2.observed calls) := by
    intro calls hsolve
    have hsolve : Solver.solve (w.observed []).registry times
        ((w.observed []).solver, (w.observed []).files) = _ := hsolve
    rw [perform_solve_apply, perform_solve_apply, hsolve]
    rfl
  by_cases hasks : w.solver.AsksEngine w.registry w.files
  · obtain ⟨calls, hne, hsettings, hsolve⟩ := Solver.solve_settings hasks times []
    refine ⟨calls, hperform calls hsolve, iff_of_true hne hasks, fun _ => ⟨hsettings, ?_⟩⟩
    rw [hsettings]
    exact Config.validate_eq_ok_iff_settings.symm
  · exact ⟨[], hperform [] (Solver.solve_without_calls hasks times []),
      iff_of_false (not_not.mpr rfl) hasks, fun h => absurd rfl h⟩

/-- A run of a model without a cache asks the engine. -/
theorem asksEngine_of_uncached {w : Session σ δ} (hdirty : w.solver.dirty = true)
    (hdir : w.solver.config.cacheDir = none)
    (hprepared : (w.solver.prepare w.registry).isOk = true) :
    w.solver.AsksEngine w.registry w.files := by
  rcases hprepare : w.solver.prepare w.registry with e | ⟨vars, start⟩
  · rw [hprepare] at hprepared
    cases hprepared
  · refine ⟨hdirty, vars, start, hprepare, fun cache f hcache => ?_⟩
    rw [Solver.cache?_of_none hdir] at hcache
    cases hcache

/-- A solver with a time limit of ten seconds, and a gap that is set and
refused. -/
def limited : Session Unit FileTree :=
  run (maximizing ++ [.setRelativeGap (1 / 4), .setAbsoluteGap (-1)])
    (start instant { Config.initial with timeLimit := some 10 } ∅ ∅)

/-- The engine receives the limit and the gap that was not refused. -/
theorem limited_received :
    ({ Config.initial with timeLimit := some 10 } : Config).validate = .ok ()
      ∧ limited.solver.config.validate = .ok ()
      ∧ ∃ calls, perform (.solve .none) (limited.observed [])
          = ((perform (.solve .none) limited).1, (perform (.solve .none) limited).2.observed calls)
        ∧ calls.filterMap Call.setting? = [(.timeLimit, 10), (.relativeGap, 1 / 4)]
        ∧ ∀ p ∈ calls.filterMap Call.setting?, Config.isLegal p.1 p.2 = true := by
  have hconfig : ({ Config.initial with timeLimit := some 10 } : Config).validate = .ok () :=
    Config.validate_eq_ok_iff_settings.mpr (by decide +kernel)
  have hvalid : limited.solver.config.validate = .ok () :=
    Config.validate_eq_ok_iff_settings.mpr (by decide +kernel)
  have hsettings : limited.solver.config.settings = [(.timeLimit, 10), (.relativeGap, 1 / 4)] := by
    decide +kernel
  have hasks : limited.solver.AsksEngine limited.registry limited.files :=
    asksEngine_of_uncached (by decide +kernel) (by decide +kernel) (by decide +kernel)
  obtain ⟨-, hruns⟩ := settings_received (w := limited) hconfig rfl
  obtain ⟨-, calls, hperform, hcalls, hreceived⟩ := hruns .none
  obtain ⟨heq, hlegal⟩ := hreceived (hcalls.mpr hasks)
  exact ⟨hconfig, hvalid, calls, hperform, heq.trans hsettings, hlegal.mpr hvalid⟩

/-- A solver with the initial settings, where the time limit is then edited. -/
def negative : Session Unit FileTree :=
  run (maximizing ++ [.configure fun c => { c with timeLimit := some (-1) }])
    (start instant .initial ∅ ∅)

/-- The edit is not checked: the engine receives a negative limit, and the
run answers with an optimum. -/
theorem negative_received :
    Config.initial.validate = .ok () ∧ negative.solver.config.validate ≠ .ok ()
      ∧ (perform (.solve .none) negative).1 = .ok (.status .optimal)
      ∧ ((perform (.solve .none) (negative.observed [])).2.solver.engine.state.2.filterMap
          Call.setting?) = [(.timeLimit, -1)]
      ∧ Config.isLegal .timeLimit (-1) = false := by
  refine ⟨Config.validate_eq_ok_iff_settings.mpr (by decide +kernel),
    mt Config.validate_eq_ok_iff_settings.mp (by decide +kernel), rfl, by decide +kernel,
    by decide +kernel⟩

end Session

end LinearProgram
