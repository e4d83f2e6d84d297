import LinearProgram.FileTree
import LinearProgram.Proofs.Solver.Session

/-!
# `LinearProgram.Proofs.Solver.Caching`: solving with and without a cache

A cache stands between a solver and its engine, and `solveFresh` is what
the engine alone would give. The two are compared here, for any state of
the files.

* `Cache.Keeps`: the file of a slot is there, can be read and says
  something. Everything else is as good as no file.
* `solve_of_kept`, `solve_of_fresh_error` and `solve_of_fresh_ok` are
  the equations of `solve` once the model has been prepared: an optimum
  is kept, or it is not and the engine fails, or succeeds.
* `shown` is what the success of an engine is reported as. With nothing
  kept it is what the engine said.

`CachedOutcome` lists the five ways in which a run with a cache ends,
each in terms of `solveFresh`, and `solve_cachedOutcome` says that there
are no others. `staleStart_refused` shows why the first of them comes
before a kept optimum: start values are looked at first.
-/

set_option autoImplicit false

namespace LinearProgram

namespace Cache

variable {δ : Type} [Storage δ]

/-- Whether a slot is filled, and what its file says. -/
structure Keeps (c : Cache) (files : δ) (slot : Slot) (key : String) (f : SolutionFile) :
    Prop where
  present : c.holds files slot key = true
  readable : c.slotFile files slot key = .ok f

/-- What a slot keeps is what is fetched from it. -/
theorem fetched_eq_some_iff {c : Cache} {files : δ} {slot : Slot} {key : String}
    {vars : VariableSet} {solution : Solution} :
    (if c.holds files slot key then (c.fetch files slot key vars).toOption else none)
        = some solution
      ↔ ∃ f, c.Keeps files slot key f ∧ f.solution vars = solution := by
  constructor
  · intro h
    split at h
    · rename_i hpresent
      cases hfile : c.slotFile files slot key with
      | error e =>
          rw [fetch, hfile] at h
          cases h
      | ok f =>
          rw [fetch, hfile] at h
          exact ⟨f, ⟨hpresent, hfile⟩, Option.some.inj h⟩
    · cases h
  · rintro ⟨f, hkeeps, rfl⟩
    rw [if_pos hkeeps.present, fetch, hkeeps.readable]
    rfl

end Cache

namespace Solver

variable {σ : Type}

/-- The cache that a solver is set up with. -/
def cache? (s : Solver σ) : Option Cache := s.config.cacheDir.map fun dir => ⟨Path.ofText dir⟩

theorem cache?_of_some {s : Solver σ} {dir : String} (h : s.config.cacheDir = some dir) :
    s.cache? = some ⟨Path.ofText dir⟩ := by
  rw [cache?, h]
  rfl

theorem cache?_of_none {s : Solver σ} (h : s.config.cacheDir = none) : s.cache? = none := by
  rw [cache?, h]
  rfl

/-- The key of a model with the given variables. -/
def key (registry : Registry) (s : Solver σ) (vars : VariableSet) : String :=
  Fingerprint.ofText (LpText.write registry s.model vars)

variable {δ : Type} [Storage δ]

/-- Whether no optimum is kept for the model. -/
def LacksOptimum (registry : Registry) (s : Solver σ) (files : δ) (vars : VariableSet) : Prop :=
  ∀ cache f, s.cache? = some cache → ¬ cache.Keeps files .optimal (s.key registry vars) f

/-- An optimum is kept exactly where one is fetched. -/
theorem lacksOptimum_iff {registry : Registry} {s : Solver σ} {files : δ} {vars : VariableSet} :
    s.LacksOptimum registry files vars
      ↔ (s.cache?.bind fun cache => cachedOptimal? cache files (s.key registry vars) vars)
        = none := by
  rw [Option.bind_eq_none_iff]
  constructor
  · intro h cache hcache
    refine Option.eq_none_iff_forall_ne_some.mpr fun solution hsome => ?_
    obtain ⟨f, hkeeps, _⟩ := Cache.fetched_eq_some_iff.mp hsome
    exact h cache f hcache hkeeps
  · intro h cache f hcache hkeeps
    have hsome : cachedOptimal? cache files (s.key registry vars) vars
        = some (f.solution vars) := Cache.fetched_eq_some_iff.mpr ⟨f, hkeeps, rfl⟩
    rw [h cache hcache] at hsome
    cases hsome

/-- What is shown where an engine has found something. -/
def shown (registry : Registry) (s : Solver σ) (files : δ) (vars : VariableSet) (status : Status)
    (found : Solution) : Status × Solution :=
  match s.cache? with
  | some cache => salvage cache files (s.key registry vars) vars status found
  | none => (status, found)

/-- The files where an engine has found something. -/
def remembered (registry : Registry) (s : Solver σ) (files : δ) (vars : VariableSet)
    (status : Status) (found : Solution) : δ :=
  match s.cache? with
  | some cache =>
    remember cache (s.key registry vars) (LpText.write registry s.model vars)
      s.model.objective.sense status found files
  | none => files

/-- What an engine says is shown unless it ran out of time and a feasible
solution is kept. -/
theorem shown_of_missing {registry : Registry} {s : Solver σ} {files : δ} {vars : VariableSet}
    {status : Status} {found : Solution}
    (h : status = .timeoutInfeasible → ∀ cache f, s.cache? = some cache →
      ¬ cache.Keeps files .feasible (s.key registry vars) f) :
    shown registry s files vars status found = (status, found) := by
  unfold shown
  split
  · rename_i cache hcache
    unfold salvage
    split
    · rename_i hstatus
      -- The time ran out, and then the feasible slot has been looked at.
      split
      · rename_i cached hcached
        obtain ⟨f, hkeeps, _⟩ := Cache.fetched_eq_some_iff.mp hcached
        exact absurd hkeeps (h rfl cache f hcache)
      · rfl
    · rfl
  · rfl

/-- A feasible solution that is kept takes the place of a run that was too
short, and the time of the run is still that of the run. -/
theorem shown_of_kept {registry : Registry} {s : Solver σ} {files : δ} {vars : VariableSet}
    {cache : Cache} {f : SolutionFile} (hcache : s.cache? = some cache)
    (hkeeps : cache.Keeps files .feasible (s.key registry vars) f) (found : Solution) :
    shown registry s files vars .timeoutInfeasible found
      = (.timeoutFeasible, { f.solution vars with times := found.times }) := by
  have hcached : cachedFeasible? cache files (s.key registry vars) vars = some (f.solution vars) :=
    Cache.fetched_eq_some_iff.mpr ⟨f, hkeeps, rfl⟩
  simp only [shown, hcache, salvage, hcached]

/-! ### The equations of a run -/

section Equations

variable {registry : Registry} {s s' : Solver σ} {files : δ} {vars : VariableSet}
  {start : Assignment} {times : Durations}

/-- A run whose model has been prepared answers what `solveChanged` does. -/
theorem solve_of_prepared (hdirty : s.dirty = true)
    (hprepare : s.prepare registry = .ok (vars, start)) :
    solve registry times (s, files) = match solveChanged registry times vars start (s, files) with
      | (.error e, world) => (.error (.backend e), world)
      | (.ok status, (s, files)) => (.ok status, ({ s with status, dirty := false }, files)) := by
  rw [solve, hdirty, hprepare]
  rfl

/-- An optimum that is kept is the solution, and nothing else happens. -/
theorem solve_of_kept {cache : Cache} {f : SolutionFile} (hdirty : s.dirty = true)
    (hprepare : s.prepare registry = .ok (vars, start)) (hcache : s.cache? = some cache)
    (hkeeps : cache.Keeps files .optimal (s.key registry vars) f) :
    solve registry times (s, files) = (.ok .optimal,
      ({ s with solution := f.solution vars, status := .optimal, dirty := false }, files)) := by
  obtain ⟨dir, hdir, rfl⟩ := Option.map_eq_some_iff.mp hcache
  have hcached : cachedOptimal? ⟨Path.ofText dir⟩ files
      (Fingerprint.ofText (LpText.write registry s.model vars)) vars = some (f.solution vars) :=
    Cache.fetched_eq_some_iff.mpr ⟨f, hkeeps, rfl⟩
  rw [solve_of_prepared hdirty hprepare]
  simp only [solveChanged, hdir, solveCached, hcached]

/-- Where no optimum is kept the engine is asked, with or without a cache. -/
theorem solveChanged_of_lacks (hlacks : s.LacksOptimum registry files vars) :
    solveChanged registry times vars start (s, files)
      = match solveFresh registry times vars start s with
        | (.error e, s') => (.error e, (s', files))
        | (.ok status, s') => (.ok (shown registry s files vars status s'.solution).1,
            ({ s' with solution := (shown registry s files vars status s'.solution).2 },
              remembered registry s files vars status s'.solution)) := by
  cases hdir : s.config.cacheDir with
  | none =>
      have hcache := cache?_of_none hdir
      simp only [solveChanged, hdir, shown, remembered, hcache]
      rcases solveFresh registry times vars start s with ⟨e | status, s'⟩ <;> rfl
  | some dir =>
      have hcache := cache?_of_some hdir
      have hcached : cachedOptimal? ⟨Path.ofText dir⟩ files
          (Fingerprint.ofText (LpText.write registry s.model vars)) vars = none :=
        Option.bind_eq_none_iff.mp (lacksOptimum_iff.mp hlacks) _ hcache
      simp only [solveChanged, hdir, solveCached, hcached, shown, remembered, hcache]
      rcases hfresh : solveFresh registry times vars start s with ⟨e | status, s'⟩
      · rfl
      · -- The run of the engine leaves the model as it was, so its sense is the old one.
        have hmodel : s'.model = s.model := by
          rcases solveFresh_cases registry times vars start s with
            ⟨e, state, _, heq⟩ | ⟨status', state, solution, heq⟩
          · rw [hfresh] at heq
            cases heq
          · rw [hfresh] at heq
            cases heq
            rfl
        simp only [hmodel]
        rfl

/-- An engine that fails is the failure of the run. -/
theorem solve_of_fresh_error {e : BackendError} (hdirty : s.dirty = true)
    (hprepare : s.prepare registry = .ok (vars, start))
    (hlacks : s.LacksOptimum registry files vars)
    (hfresh : solveFresh registry times vars start s = (.error e, s')) :
    solve registry times (s, files) = (.error (.backend e), (s', files)) := by
  rw [solve_of_prepared hdirty hprepare, solveChanged_of_lacks hlacks, hfresh]

/-- An engine that succeeds decides what is shown and what is remembered. -/
theorem solve_of_fresh_ok {status : Status} (hdirty : s.dirty = true)
    (hprepare : s.prepare registry = .ok (vars, start))
    (hlacks : s.LacksOptimum registry files vars)
    (hfresh : solveFresh registry times vars start s = (.ok status, s')) :
    solve registry times (s, files)
      = (.ok (shown registry s files vars status s'.solution).1,
        ({ s' with
            solution := (shown registry s files vars status s'.solution).2
            status := (shown registry s files vars status s'.solution).1
            dirty := false },
          remembered registry s files vars status s'.solution)) := by
  rw [solve_of_prepared hdirty hprepare, solveChanged_of_lacks hlacks, hfresh]

end Equations

/-! ### Every outcome -/

/-- What `solve` gives and leaves where there is a cache, compared to what
`solveFresh` gives from the same state. -/
inductive CachedOutcome (cache : Cache) (registry : Registry) (times : Durations) (s : Solver σ)
    (files : δ) : Except SolverError Status → Solver σ → δ → Prop
  /-- The model or a start value is refused, and neither the cache nor the
  engine is asked. -/
  | refused {e : ModelError} (cause : s.prepare registry = .error e) :
      CachedOutcome cache registry times s files (.error (.model e)) s files
  /-- An optimum is kept. It is the solution, and the engine is not asked. -/
  | served {vars : VariableSet} {start : Assignment} {f : SolutionFile}
      (prepared : s.prepare registry = .ok (vars, start))
      (kept : cache.Keeps files .optimal (s.key registry vars) f) :
      CachedOutcome cache registry times s files (.ok .optimal)
        { s with solution := f.solution vars, status := .optimal, dirty := false } files
  /-- No optimum is kept and the engine fails. No file is written. -/
  | failed {vars : VariableSet} {start : Assignment} {e : BackendError} {s' : Solver σ}
      (prepared : s.prepare registry = .ok (vars, start))
      (lacking : ∀ f, ¬ cache.Keeps files .optimal (s.key registry vars) f)
      (fresh : solveFresh registry times vars start s = (.error e, s')) :
      CachedOutcome cache registry times s files (.error (.backend e)) s' files
  /-- No optimum is kept, and the time of the engine ran out before it
  found anything. What is kept as feasible takes its place. -/
  | replaced {vars : VariableSet} {start : Assignment} {s' : Solver σ} {f : SolutionFile}
      {files' : δ} (prepared : s.prepare registry = .ok (vars, start))
      (lacking : ∀ f, ¬ cache.Keeps files .optimal (s.key registry vars) f)
      (fresh : solveFresh registry times vars start s = (.ok .timeoutInfeasible, s'))
      (kept : cache.Keeps files .feasible (s.key registry vars) f) :
      CachedOutcome cache registry times s files (.ok .timeoutFeasible)
        { s' with
          solution := { f.solution vars with times := s'.solution.times }
          status := .timeoutFeasible
          dirty := false } files'
  /-- In all other cases the run gives what the engine gave, whatever
  happens to the files. -/
  | passed {vars : VariableSet} {start : Assignment} {status : Status} {s' : Solver σ}
      {files' : δ} (prepared : s.prepare registry = .ok (vars, start))
      (lacking : ∀ f, ¬ cache.Keeps files .optimal (s.key registry vars) f)
      (fresh : solveFresh registry times vars start s = (.ok status, s'))
      (unsaved : status = .timeoutInfeasible →
        ∀ f, ¬ cache.Keeps files .feasible (s.key registry vars) f) :
      CachedOutcome cache registry times s files (.ok status)
        { s' with status, dirty := false } files'

/-- A run with a cache that has anything to do ends in one of the five ways. -/
theorem solve_cachedOutcome {dir : String} {s : Solver σ} (hdirty : s.dirty = true)
    (hdir : s.config.cacheDir = some dir) (registry : Registry) (times : Durations) (files : δ) :
    CachedOutcome ⟨Path.ofText dir⟩ registry times s files (solve registry times (s, files)).1
      (solve registry times (s, files)).2.1 (solve registry times (s, files)).2.2 := by
  have hcache := cache?_of_some hdir
  have honly : ∀ {cache : Cache}, s.cache? = some cache → cache = ⟨Path.ofText dir⟩ := by
    intro cache h
    rw [hcache] at h
    exact (Option.some.inj h).symm
  cases hprepare : s.prepare registry with
  | error e =>
      rw [solve_of_prepare_error hdirty hprepare]
      exact .refused hprepare
  | ok prepared =>
      obtain ⟨vars, start⟩ := prepared
      -- A kept optimum comes before the engine, whatever the engine would say.
      by_cases hkept : ∃ f, Cache.Keeps ⟨Path.ofText dir⟩ files .optimal (s.key registry vars) f
      · obtain ⟨f, hkeeps⟩ := hkept
        rw [solve_of_kept hdirty hprepare hcache hkeeps]
        exact .served hprepare hkeeps
      · have hnone := not_exists.mp hkept
        have hlacks : s.LacksOptimum registry files vars := by
          intro cache f h
          rw [honly h]
          exact hnone f
        rcases hfresh : solveFresh registry times vars start s with ⟨e | status, s'⟩
        · rw [solve_of_fresh_error hdirty hprepare hlacks hfresh]
          exact .failed hprepare hnone hfresh
        · rw [solve_of_fresh_ok hdirty hprepare hlacks hfresh]
          -- What is kept as feasible counts only where the time ran out.
          by_cases hfeasible : status = .timeoutInfeasible
              ∧ ∃ f, Cache.Keeps ⟨Path.ofText dir⟩ files .feasible (s.key registry vars) f
          · obtain ⟨rfl, f, hkeeps⟩ := hfeasible
            rw [shown_of_kept hcache hkeeps]
            exact .replaced hprepare hnone hfresh hkeeps
          · have hunsaved : status = .timeoutInfeasible → ∀ f,
                ¬ Cache.Keeps ⟨Path.ofText dir⟩ files .feasible (s.key registry vars) f :=
              fun hstatus f hkeeps => hfeasible ⟨hstatus, f, hkeeps⟩
            rw [shown_of_missing fun hstatus cache f h => honly h ▸ hunsaved hstatus f]
            exact .passed hprepare hnone hfresh hunsaved

end Solver

namespace Session

/-- What an operation gives, read off an option that can be computed. -/
theorem eq_ok_of_toOption {ε α : Type} {x : Except ε α} {a : α} (h : x.toOption = some a) :
    x = .ok a := by
  cases x with
  | error e => cases h
  | ok b => exact congrArg Except.ok (Option.some.inj h)

/-- An engine that reports the same of every model. -/
def reporting (status : Status) (found : Solution) : Engine Unit where
  backend := {
    name := "reporting"
    features := .ofList [.lp]
    reset := id
    setConsoleOutput := fun _ => id
    addVariable := fun _ => .done ()
    addConstraint := fun _ => .done ()
    setObjective := fun _ => .done ()
    solve := .done (status, found)
  }
  state := ()

/-- A session that keeps its results in `cache` and maximizes a variable
`x` between 0 and 5. An engine has reported 3 for it, with a status. -/
def cachedSession (status : Status) : Session Unit FileTree :=
  run [.changeVariable (.declare "x" (.bounded .real 0 10)),
      .changeVariable (.setStart ⟨0, "x"⟩ (some 8)),
      .changeVariable (.setUpper ⟨0, "x"⟩ 5),
      .setObjective ⟨.maximize, .ofVariable ⟨0, "x"⟩⟩,
      .solve .none]
    (start (reporting status (.of 3 (.ofList [(⟨0, "x"⟩, 3)])))
      { Config.initial with cacheDir := some "cache" } ∅ ∅)

/-- A session whose next engine has no time to find anything. -/
def hurriedSession : Session Unit FileTree :=
  run [.setEngine (reporting .timeoutInfeasible ∅)] (cachedSession .feasible)

/-- The solution that an earlier engine found is what is shown. -/
theorem hurriedSession_replaced :
    hurriedSession.solver.dirty = true
      ∧ hurriedSession.solver.config.cacheDir = some "cache"
      ∧ Solver.CachedOutcome ⟨Path.ofText "cache"⟩ hurriedSession.registry .none
        hurriedSession.solver hurriedSession.files
        (Solver.solve hurriedSession.registry .none
          (hurriedSession.solver, hurriedSession.files)).1
        (Solver.solve hurriedSession.registry .none
          (hurriedSession.solver, hurriedSession.files)).2.1
        (Solver.solve hurriedSession.registry .none
          (hurriedSession.solver, hurriedSession.files)).2.2
      ∧ (perform (.solve .none) hurriedSession).2.solver.status = .timeoutFeasible
      ∧ (perform (.solve .none) hurriedSession).2.solver.solution.value? ⟨0, "x"⟩ = some 3 := by
  have hdirty : hurriedSession.solver.dirty = true := by decide +kernel
  have hdir : hurriedSession.solver.config.cacheDir = some "cache" := by decide +kernel
  exact ⟨hdirty, hdir, Solver.solve_cachedOutcome hdirty hdir _ _ _, by decide +kernel, by decide +kernel⟩

/-- A session with a solved model, in which start values count from now on. -/
def staleSession : Session Unit FileTree :=
  run [.configure fun c => { c with warmStart := true }] (cachedSession .optimal)

/-- An optimum is kept for the model, and still a run fails: the start
value of `x` is no longer between its bounds. -/
theorem staleStart_refused :
    staleSession.solver.dirty = true ∧ staleSession.solver.config.cacheDir = some "cache"
      ∧ (∃ vars f, staleSession.solver.variableSet = .ok vars
        ∧ Cache.Keeps ⟨Path.ofText "cache"⟩ staleSession.files .optimal
          (staleSession.solver.key staleSession.registry vars) f)
      ∧ ∃ name value, ∀ times, perform (.solve times) staleSession
        = (.error (.model (.startOutsideDomain name value)), staleSession) := by
  have hdirty : staleSession.solver.dirty = true := by decide +kernel
  have hdir : staleSession.solver.config.cacheDir = some "cache" := by decide +kernel
  have hrefused : (staleSession.solver.prepare staleSession.registry).isOk = false := by
    decide +kernel
  have hkept : (staleSession.solver.variableSet.toOption.bind fun vars =>
      Solver.cachedOptimal? ⟨Path.ofText "cache"⟩ staleSession.files
        (staleSession.solver.key staleSession.registry vars) vars).isSome = true := by
    decide +kernel
  -- What has been computed is all that is needed of the session.
  generalize staleSession = w at *
  obtain ⟨solution, hcached⟩ := Option.isSome_iff_exists.mp hkept
  obtain ⟨vars, hvars, hcached⟩ := Option.bind_eq_some_iff.mp hcached
  obtain ⟨f, hkeeps, _⟩ := Cache.fetched_eq_some_iff.mp hcached
  have hvars := eq_ok_of_toOption hvars
  refine ⟨hdirty, hdir, ⟨vars, f, hvars, hkeeps⟩, ?_⟩
  cases hprepare : w.solver.prepare w.registry with
  | ok prepared => rw [hprepare] at hrefused; cases hrefused
  | error e =>
      rcases Solver.prepare_error hprepare with herror | ⟨name, value, rfl⟩
      · rw [hvars] at herror
        cases herror
      · refine ⟨name, value, fun times => ?_⟩
        simp only [perform, Solver.solve_of_prepare_error hdirty hprepare]

end Session

end LinearProgram
