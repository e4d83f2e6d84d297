import LinearProgram.Proofs.Binary64.Whole
import LinearProgram.Proofs.Cache.Beside
import LinearProgram.Proofs.LpText.Unambiguous.Listings
import LinearProgram.Proofs.Solver.Calls

/-!
# `LinearProgram.Proofs.Solver.Replay`: an optimum that is found once

Solvers that share a cache run one after another. Once one of them has
found an optimum, the others need no engine for a model with that text.

* `solve_found_or_kept`: a run remembers what its engine has found, where no
  optimum is kept, or it leaves the files as they are.
* `Run` is a run of any solver. Between two runs anything can happen to a
  solver, so that each is given as it is when it begins.
* `Reports` is what the engine finds in a run, if it is asked. A run fills
  no other slot than the one for that (`contains_leave_beside`).
* `contains_leave` is the step: the file of the optimum keeps its content
  over a run of any model. A run with the key of that file has an optimum,
  whatever its model is, and does not write it. `contains_foldl_leave` is
  the induction.
* `Optimizes.outcome_later`: a later run takes its solution from the file.

`optimum_replayed` sums up. The second model may have other variables. What
has to be the same is the text, which declares the integer variables, and
values go by names. `replay_limits` shows what cannot be left out: start
values are looked at first, two models with one text may have no name in
common, and not every number has a whole number next to it.
-/

set_option autoImplicit false

namespace LinearProgram

open Text (IsWord)

/-! ### The files after a run -/

namespace Solver

variable {σ δ : Type} [Storage δ]

/-- A run asks its engine with success, where the model has changed and no
optimum is kept, or it leaves the files as they are. If it says then that
the solution is optimal, this is an optimum that was kept. -/
theorem solve_found_or_kept (registry : Registry) (times : Durations) (s : Solver σ) (files : δ) :
    (∃ vars start status s', s.dirty = true ∧ s.prepare registry = .ok (vars, start)
        ∧ s.LacksOptimum registry files vars
        ∧ solveFresh registry times vars start s = (.ok status, s')
        ∧ solve registry times (s, files)
          = (.ok (shown registry s files vars status s'.solution).1,
            ({ s' with
                solution := (shown registry s files vars status s'.solution).2
                status := (shown registry s files vars status s'.solution).1
                dirty := false },
              remembered registry s files vars status s'.solution)))
      ∨ (solve registry times (s, files)).2.2 = files
        ∧ ((solve registry times (s, files)).1 = .ok .optimal →
          ∃ vars, s.variableSet = .ok vars ∧ ¬ s.LacksOptimum registry files vars) := by
  cases hdirty : s.dirty with
  | false =>
      rw [solve_of_clean hdirty]
      exact .inr ⟨rfl, nofun⟩
  | true =>
      cases hprepare : s.prepare registry with
      | error e =>
          rw [solve_of_prepare_error hdirty hprepare]
          exact .inr ⟨rfl, nofun⟩
      | ok prepared =>
          obtain ⟨vars, start⟩ := prepared
          by_cases hlacks : s.LacksOptimum registry files vars
          · rcases hfresh : solveFresh registry times vars start s with ⟨e | status, s'⟩
            · rw [solve_of_fresh_error hdirty hprepare hlacks hfresh]
              exact .inr ⟨rfl, nofun⟩
            · exact .inl ⟨vars, start, status, s', rfl, rfl, hlacks, hfresh,
                solve_of_fresh_ok hdirty hprepare hlacks hfresh⟩
          · have hkept := hlacks
            simp only [LacksOptimum, not_forall, not_not] at hkept
            obtain ⟨cache, f, hcache, hkept⟩ := hkept
            rw [solve_of_kept hdirty hprepare hcache hkept]
            exact .inr ⟨rfl, fun _ => ⟨vars, variableSet_of_prepare hprepare, hlacks⟩⟩

/-- What is shown as optimal is what the engine has found to be so. -/
theorem shown_eq_optimal {registry : Registry} {s : Solver σ} {files : δ} {vars : VariableSet}
    {status : Status} {found : Solution}
    (h : (shown registry s files vars status found).1 = .optimal) :
    status = .optimal ∧ (shown registry s files vars status found).2 = found := by
  -- Only a run that was too short is shown as something else, and never as optimal.
  by_cases hshort : status = .timeoutInfeasible
  · rw [hshort] at h
    unfold shown at h
    split at h
    · simp only [salvage] at h
      split at h <;> cases h
    · cases h
  · rw [shown_of_missing fun hstatus => absurd hstatus hshort] at h ⊢
    exact ⟨h, rfl⟩

end Solver

/-- The slot into which a solution is put. -/
def Status.slot? : Status → Option Slot
  | .optimal => some .optimal
  | .feasible | .timeoutFeasible => some .feasible
  | _ => none

/-- A slot stays as it is if what is remembered goes elsewhere. -/
theorem Cache.Contains.remember {δ : Type} [Storage δ] [LawfulStorage δ] {c : Cache} {slot : Slot}
    {text text' content : String} {files : δ} {status : Status}
    (h : c.Contains slot text content files)
    (hne : Fingerprint.ofText text' = Fingerprint.ofText text → status.slot? ≠ some slot)
    (sense : Sense) (found : Solution) :
    c.Contains slot text content
      (Solver.remember c (Fingerprint.ofText text') text' sense status found files) := by
  cases status with
  | optimal => exact h.store_beside (fun hkey heq => hne hkey (congrArg some heq)) found _
  | feasible | timeoutFeasible =>
      exact h.offerFeasible (fun hkey heq => hne hkey (congrArg some heq)) sense found _
  | _ => exact h

/-! ### Runs of several solvers -/

/-- A run of some solver. -/
structure Run where
  {σ : Type}
  solver : Solver σ
  registry : Registry
  times : Durations

namespace Run

variable {δ : Type} [Storage δ]

/-- The text of the model. -/
def text (r : Run) : Except ModelError String := r.solver.lpText r.registry

/-- It is written for the variables of the model. -/
theorem write_eq {r : Run} {vars : VariableSet} {text : String}
    (hvars : r.solver.variableSet = .ok vars) (htext : r.text = .ok text) :
    LpText.write r.registry r.solver.model vars = text := by
  rw [Run.text, Solver.lpText, hvars] at htext
  exact Except.ok.inj htext

/-- What the run answers, and what it leaves of the solver and the files. -/
def outcome (r : Run) (files : δ) : Except SolverError Status × Solver r.σ × δ :=
  Solver.solve r.registry r.times (r.solver, files)

/-- The solution that the solver has after the run. -/
def solution (r : Run) (files : δ) : Solution := (r.outcome files).2.1.solution

/-- The files after the run. -/
def leave (files : δ) (r : Run) : δ := (r.outcome files).2.2

/-- Whether the engine is asked in a run, and what it finds. It is asked if the
model has changed and no optimum is kept for it. -/
structure Reports (r : Run) (files : δ) (vars : VariableSet) (status : Status)
    (found : Solution) : Prop where
  dirty : r.solver.dirty = true
  lacking : r.solver.LacksOptimum r.registry files vars
  answered : ∃ start s', r.solver.prepare r.registry = .ok (vars, start)
    ∧ Solver.solveFresh r.registry r.times vars start r.solver = (.ok status, s')
    ∧ s'.solution = found

/-- What is found is remembered. -/
theorem Reports.leave_eq {r : Run} {files : δ} {vars : VariableSet} {status : Status}
    {found : Solution} (h : r.Reports files vars status found) :
    r.leave files = Solver.remembered r.registry r.solver files vars status found := by
  obtain ⟨hdirty, hlacks, start, s', hprepare, hfresh, rfl⟩ := h
  rw [leave, outcome, Solver.solve_of_fresh_ok hdirty hprepare hlacks hfresh]

/-- Where nothing is found the files are left alone. -/
theorem reports_or_leave_eq (r : Run) (files : δ) :
    (∃ vars status found, r.Reports files vars status found) ∨ r.leave files = files := by
  rcases Solver.solve_found_or_kept r.registry r.times r.solver files with
    ⟨vars, start, status, s', hdirty, hprepare, hlacks, hfresh, _⟩ | ⟨hsame, _⟩
  · exact .inl ⟨vars, status, s'.solution, hdirty, hlacks, start, s', hprepare, hfresh, rfl⟩
  · exact .inr hsame

/-- Whether a run has its cache in a directory, or none. -/
def Shares (dir : String) (r : Run) : Prop :=
  r.solver.config.cacheDir = some dir ∨ r.solver.config.cacheDir = none

/-- A run of a model with a text, in which nothing is refused before the
cache is asked. -/
structure IsDue (dir text : String) (r : Run) (vars : VariableSet) : Prop where
  directory : r.solver.config.cacheDir = some dir
  dirty : r.solver.dirty = true
  prepared : ∃ start, r.solver.prepare r.registry = .ok (vars, start)
  same : r.text = .ok text

/-- A run in which the engine finds an optimum, and which can store it. -/
structure Optimizes (dir text : String) (r : Run) (files : δ) (vars : VariableSet) : Prop where
  directory : r.solver.config.cacheDir = some dir
  complete : r.solver.variableSet = .ok vars
  same : r.text = .ok text
  /-- The names begin no comment, and there are no blanks in them. -/
  named : ∀ v ∈ vars, IsWord v.name.toList ∧ '#' ∉ v.name.toList
  /-- The optimum does not come from the cache. -/
  lacking : r.solver.LacksOptimum r.registry files vars
  optimal : (r.outcome files).1 = .ok .optimal
  /-- The engine reports numbers for variables of the model, and nothing else. -/
  reported : ∀ start found state, r.solver.Finds r.registry vars start .optimal found state →
    ∀ v x, found.value? v = some x → v ∈ vars ∧ x.isNaN = false
  /-- No file operation is refused. -/
  stored : (Cache.store ⟨Path.ofText dir⟩ .optimal (Fingerprint.ofText text) (r.solution files)
    (some text) files).1 = .ok ()

/-! ### The runs in between -/

section Between

variable {dir text content : String} {f : SolutionFile}

/-- A file whose content is a solution keeps an optimum. -/
theorem keeps_of_contains [LawfulStorage δ] {c : Cache} {files : δ}
    (hf : SolutionFile.ofText content = .ok f) (h : c.Contains .optimal text content files) :
    c.Keeps files .optimal (Fingerprint.ofText text) f := by
  have hread : readText files (c.slotPath .optimal (Fingerprint.ofText text)) = .ok content := h
  refine ⟨isFile_of_readText hread, ?_⟩
  rw [Cache.slotFile, hread]
  simp only [hf]

variable [LawfulStorage δ]

/-- A slot is the same after a run, unless what has been found goes there. -/
theorem contains_leave_beside {r : Run} {slot : Slot} {files : δ} (hr : r.Shares dir)
    (hne : r.solver.config.cacheDir = some dir → ∀ vars status found,
      r.Reports files vars status found →
        r.solver.key r.registry vars = Fingerprint.ofText text → status.slot? ≠ some slot)
    (h : Cache.Contains ⟨Path.ofText dir⟩ slot text content files) :
    Cache.Contains ⟨Path.ofText dir⟩ slot text content (leave files r) := by
  rcases reports_or_leave_eq r files with ⟨vars, status, found, hreports⟩ | heq
  · rw [hreports.leave_eq, Solver.remembered]
    rcases hr with hdir | hdir
    · simp only [Solver.cache?_of_some hdir]
      exact h.remember (hne hdir vars status found hreports) _ found
    · simp only [Solver.cache?_of_none hdir]
      exact h
  · rw [heq]
    exact h

/-- The file of the optimum is the same after a run of any model. -/
theorem contains_leave {r : Run} {files : δ} (hr : r.Shares dir)
    (hf : SolutionFile.ofText content = .ok f)
    (h : Cache.Contains ⟨Path.ofText dir⟩ .optimal text content files) :
    Cache.Contains ⟨Path.ofText dir⟩ .optimal text content (leave files r) := by
  refine contains_leave_beside hr (fun hdir vars status found hreports hkey => ?_) h
  -- The run had no optimum, so its model has another key.
  refine absurd (keeps_of_contains hf h) ?_
  rw [← hkey]
  exact hreports.lacking _ f (Solver.cache?_of_some hdir)

/-- And it is the same after any number of them. -/
theorem contains_foldl_leave {runs : List Run} (hruns : ∀ r ∈ runs, r.Shares dir)
    (hf : SolutionFile.ofText content = .ok f) {files : δ}
    (h : Cache.Contains ⟨Path.ofText dir⟩ .optimal text content files) :
    Cache.Contains ⟨Path.ofText dir⟩ .optimal text content (runs.foldl leave files) := by
  induction runs generalizing files with
  | nil => exact h
  | cons r rest ih =>
      exact ih (fun q hq => hruns q (List.mem_cons_of_mem _ hq))
        (contains_leave (hruns r (List.mem_cons_self ..)) hf h)

end Between

/-! ### The run that finds the optimum -/

section First

variable {dir text : String} {r : Run} {files : δ} {vars : VariableSet}

/-- The engine has found the solution, and it has been stored. -/
theorem Optimizes.exists_found (h : r.Optimizes dir text files vars) :
    (∃ start found state, r.solver.Finds r.registry vars start .optimal found state
        ∧ Solver.IsRounded r.registry r.times found (r.solution files))
      ∧ r.leave files = (Cache.store ⟨Path.ofText dir⟩ .optimal (Fingerprint.ofText text)
        (r.solution files) (some text) files).2 := by
  have hoptimal := h.optimal
  rw [solution, leave, outcome] at *
  rcases Solver.solve_found_or_kept r.registry r.times r.solver files with
    ⟨all, start, status, s', _, hprepare, _, hfresh, heq⟩ | ⟨_, hkept⟩
  · have hall : all = vars :=
      Except.ok.inj ((Solver.variableSet_of_prepare hprepare).symm.trans h.complete)
    subst hall
    rw [heq] at hoptimal ⊢
    obtain ⟨rfl, hshown⟩ := Solver.shown_eq_optimal (Except.ok.inj hoptimal)
    obtain ⟨found, hfinds, hrounded⟩ := Solver.solveFresh_ok hfresh
    -- What the engine has found is shown, and it is what is remembered.
    simp only [hshown]
    refine ⟨⟨start, found, _, hfinds, hrounded⟩, ?_⟩
    rw [Solver.remembered, Solver.cache?_of_some h.directory, ← write_eq h.complete h.same]
    rfl
  · obtain ⟨all, hall, hnot⟩ := hkept hoptimal
    obtain rfl : all = vars := Except.ok.inj (hall.symm.trans h.complete)
    exact absurd h.lacking hnot

/-- What is stored are numbers, for variables of the model. Those of binary
and integer variables have been rounded. -/
theorem Optimizes.value (h : r.Optimizes dir text files vars) {v : Variable} {x : Float}
    (hx : (r.solution files).value? v = some x) :
    v ∈ vars ∧ x.isNaN = false
      ∧ ((r.registry.attributes v).kind.isIntegral = true →
        ∃ reported, x = Binary64.roundHalfAway reported) := by
  obtain ⟨⟨start, found, state, hfinds, hrounded⟩, _⟩ := h.exists_found
  rw [hrounded.values v] at hx
  obtain ⟨reported, hreported, rfl⟩ := Option.map_eq_some_iff.mp hx
  obtain ⟨hv, hnan⟩ := h.reported start found state hfinds v reported hreported
  cases (r.registry.attributes v).kind.isIntegral with
  | false => exact ⟨hv, hnan, nofun⟩
  | true => exact ⟨hv, Binary64.isNaN_roundHalfAway hnan, fun _ => ⟨reported, rfl⟩⟩

/-- After the run the file of the optimum is the vector of the solution. -/
theorem Optimizes.contains [LawfulStorage δ] (h : r.Optimizes dir text files vars) :
    Cache.Contains ⟨Path.ofText dir⟩ .optimal text ((r.solution files).vector true)
      (r.leave files) := by
  obtain ⟨_, hfiles⟩ := h.exists_found
  have hstore : Cache.store ⟨Path.ofText dir⟩ .optimal (Fingerprint.ofText text)
      (r.solution files) (some text) files = (.ok (), r.leave files) :=
    Prod.ext h.stored hfiles.symm
  exact Cache.readText_of_store hstore

end First

/-! ### The run that finds it again -/

section Later

variable [LawfulStorage δ] {dir text : String} {first later : Run} {files : δ}
  {vars vars' : VariableSet} {between : List Run}

/-- A later run of a model with the text takes its solution from the file:
the objective that was stored, and the values by their names. -/
theorem Optimizes.outcome_later (hfirst : first.Optimizes dir text files vars)
    (hbetween : ∀ r ∈ between, r.Shares dir) (hlater : later.IsDue dir text vars') :
    ∃ found : Solution, later.outcome (between.foldl leave (first.leave files)) = (.ok .optimal,
        { later.solver with solution := found, status := .optimal, dirty := false },
        between.foldl leave (first.leave files))
      ∧ found.objective = (first.solution files).objective
      ∧ (∀ v ∈ vars', ∀ u x, (first.solution files).value? u = some x → u.name = v.name →
        found.value? v = some (SolutionFile.recorded u x))
      ∧ ∀ v ∈ vars', (∀ u x, (first.solution files).value? u = some x → u.name ≠ v.name) →
        found.value? v = some 0 := by
  have hwritable := SolutionFile.isWritable_of_mem (fun v x hx => (hfirst.value hx).1)
    fun v hv => (hfirst.named v hv).1
  obtain ⟨f, hf, hsolution⟩ := SolutionFile.solution_of_vector hwritable
  obtain ⟨start, hprepare⟩ := hlater.prepared
  -- The model has the text of the first one, and so it has its key.
  have hkept : Cache.Keeps ⟨Path.ofText dir⟩ (between.foldl leave (first.leave files)) .optimal
      (later.solver.key later.registry vars') f := by
    rw [Solver.key, write_eq (Solver.variableSet_of_prepare hprepare) hlater.same]
    exact keeps_of_contains hf (contains_foldl_leave hbetween hf hfirst.contains)
  exact ⟨f.solution vars', Solver.solve_of_kept hlater.dirty hprepare
    (Solver.cache?_of_some hlater.directory) hkept, hsolution vars'⟩

/-- Once an engine has found an optimum, any later run of a model with that
text has it for its solution. The engine of that run is not asked, and the
files are as they were. The objective is the same. The value of a variable
is that of the variable of its name in the first model, up to the sign of a
zero, and zero if there is none. Finite values of binary and integer
variables are whole. -/
theorem optimum_replayed (hfirst : first.Optimizes dir text files vars)
    (hbetween : ∀ r ∈ between, r.Shares dir) (hlater : later.IsDue dir text vars') :
    ∃ found : Solution, later.outcome (between.foldl leave (first.leave files)) = (.ok .optimal,
        { later.solver with solution := found, status := .optimal, dirty := false },
        between.foldl leave (first.leave files))
      ∧ found.objective = (first.solution files).objective
      ∧ (∀ v ∈ vars', ∀ u x, (first.solution files).value? u = some x → u.name = v.name →
        ∃ y, found.value? v = some y ∧ (y == x) = true)
      ∧ (∀ v ∈ vars', (∀ u x, (first.solution files).value? u = some x → u.name ≠ v.name) →
        found.value? v = some 0)
      ∧ ((∀ v ∈ vars', '\n' ∉ v.name.toList) →
        ∀ v ∈ vars', (later.registry.attributes v).kind.isIntegral = true →
          ∃ y, found.value? v = some y ∧ (y.isFinite = true → Binary64.isWhole y = true)) := by
  obtain ⟨found, houtcome, hobjective, hvalue, hzero⟩ := hfirst.outcome_later hbetween hlater
  obtain ⟨start, hprepare⟩ := hlater.prepared
  refine ⟨found, houtcome, hobjective, fun v hv u x hx hname => ?_, hzero,
    fun hlines v hv hintegral => ?_⟩
  · -- A value is lost only if a number sign is in the name, and there is none.
    obtain ⟨hu, hnan, _⟩ := hfirst.value hx
    have hmark := (hfirst.named u hu).2
    exact ⟨_, hvalue v hv u x hx hname,
      (SolutionFile.recorded_beq_iff hnan).mpr fun h => absurd h hmark⟩
  · by_cases hnone : ∀ u x, (first.solution files).value? u = some x → u.name ≠ v.name
    · exact ⟨0, hzero v hv hnone, fun _ => by decide +kernel⟩
    · simp only [not_forall, not_not] at hnone
      obtain ⟨u, x, hx, hname⟩ := hnone
      obtain ⟨hu, _, hrounded⟩ := hfirst.value hx
      -- The kind of the variable of that name stands in the text.
      have hlines' : LpText.HasLineNames vars := fun w hw hfeed =>
        absurd ((hfirst.named w hw).1.2 '\n' hfeed) (by decide)
      have hsame : LpText.write first.registry first.solver.model vars
          = LpText.write later.registry later.solver.model vars' :=
        (write_eq hfirst.complete hfirst.same).trans
          (write_eq (Solver.variableSet_of_prepare hprepare) hlater.same).symm
      obtain ⟨w, hw, hwname, hkind⟩ :=
        LpText.exists_kind_of_write hlines' hlines hsame hv hintegral
      obtain rfl := VariableSet.eq_of_name_eq hw hu (hwname.trans hname.symm)
      obtain ⟨reported, rfl⟩ := hrounded (by rw [hkind]; exact hintegral)
      -- So the value has been rounded before it was stored.
      refine ⟨_, hvalue v hv w _ hx hname, fun hfinite => ?_⟩
      rw [SolutionFile.recorded_eq] at hfinite ⊢
      split
      · decide +kernel
      · rename_i hfound
        rw [if_neg hfound] at hfinite
        exact Binary64.isWhole_roundHalfAway (Binary64.isFinite_of_roundHalfAway hfinite)

end Later

end Run

namespace Session

/-- The run that a session is about to make. -/
def due {σ δ : Type} (w : Session σ δ) : Run := ⟨w.solver, w.registry, .none⟩

/-- A session that maximizes a variable from 0 up, whose start value is 8.
The engine reports a value for it, and the results are kept in `cache`. -/
def reported (kind : Kind) (upper : Float) (name : String) (value : Float) :
    Session Unit FileTree :=
  run [.changeVariable (.declare name (.bounded kind 0 Binary64.infinity)),
      .changeVariable (.setStart ⟨0, name⟩ (some 8)),
      .changeVariable (.setUpper ⟨0, name⟩ upper),
      .setObjective ⟨.maximize, .ofVariable ⟨0, name⟩⟩]
    (start (reporting .optimal (.of value (.ofList [(⟨0, name⟩, value)])))
      { Config.initial with cacheDir := some "cache" } ∅ ∅)

theorem solver_changeVariable {σ δ : Type} [Storage δ] (op : VariableOperation)
    (w : Session σ δ) : (perform (.changeVariable op) w).2.solver = w.solver := by
  obtain ⟨registry, h⟩ := perform_changeVariable_snd op w
  rw [h]

/-- Nothing is asked of the engine before a run. -/
theorem engine_reported (kind : Kind) (upper : Float) (name : String) (value : Float) :
    (reported kind upper name value).solver.engine
      = reporting .optimal (.of value (.ofList [(⟨0, name⟩, value)])) := by
  have hobjective : ∀ (o : Objective) (w : Session Unit FileTree),
      (perform (.setObjective o) w).2.solver.engine = w.solver.engine := by
    intro o w
    rw [perform, onSolver_snd]
    unfold Solver.setObjective
    split <;> rfl
  simp only [reported, run, List.foldl_cons, List.foldl_nil, hobjective, solver_changeVariable]
  rfl

/-- A session with that engine makes a run that finds the optimum. All that
is asked of it can be computed. -/
theorem optimizes_due {w : Session Unit FileTree} {v : Variable} {value : Float} (text : String)
    (hengine : w.solver.engine = reporting .optimal (.of value (.ofList [(v, value)])))
    (hvalue : value.isNaN = false ∧ IsWord v.name.toList ∧ '#' ∉ v.name.toList)
    (hcomputed : w.solver.config.cacheDir = some "cache"
      ∧ w.solver.variableSet.toOption.map VariableSet.toList = some [v]
      ∧ w.due.text.toOption = some text
      ∧ Cache.holds ⟨Path.ofText "cache"⟩ w.files .optimal (Fingerprint.ofText text) = false
      ∧ (w.due.outcome w.files).1.toOption = some .optimal
      ∧ (Cache.store ⟨Path.ofText "cache"⟩ .optimal (Fingerprint.ofText text)
        (w.due.solution w.files) (some text) w.files).1.toOption = some ()) :
    ∃ vars, w.due.Optimizes "cache" text w.files vars ∧ vars.toList = [v] := by
  obtain ⟨hnan, hnamed⟩ := hvalue
  obtain ⟨hdir, hmembers, htext, hfree, hoptimal, hstored⟩ := hcomputed
  obtain ⟨vars, hvars, hlist⟩ := Option.map_eq_some_iff.mp hmembers
  have hvars : w.solver.variableSet = .ok vars := eq_ok_of_toOption hvars
  have htext : w.due.text = .ok text := eq_ok_of_toOption htext
  have hmem : ∀ u, u ∈ vars ↔ u = v := by
    intro u
    rw [← VariableSet.mem_toList_iff, hlist, List.mem_singleton]
  refine ⟨vars, ⟨hdir, hvars, htext, fun u hu => (hmem u).mp hu ▸ hnamed, ?_,
    eq_ok_of_toOption hoptimal, ?_, eq_ok_of_toOption hstored⟩, hlist⟩
  · -- There is no file yet.
    intro cache f hcache hkeeps
    have hwrite : LpText.write w.due.registry w.due.solver.model vars = text :=
      Run.write_eq hvars htext
    have hown : w.due.solver.cache? = some ⟨Path.ofText "cache"⟩ := Solver.cache?_of_some hdir
    have hpresent := hkeeps.present
    rw [Solver.key, hwrite, Option.some.inj (hcache.symm.trans hown), hfree] at hpresent
    cases hpresent
  · -- Whatever it has been told, the engine reports the one value.
    rintro start found state ⟨before, _, hsolve⟩ u x hx
    have hsolve : w.solver.engine.backend.solve before = (.ok (.optimal, found), state) := hsolve
    rw [hengine] at hsolve
    cases hsolve
    have hu := OrderedMap.mem_toList_iff.mpr hx
    have hentries : (OrderedMap.ofList [(v, value)]).toList = [(v, value)] := rfl
    rw [Solution.of, hentries] at hu
    cases List.mem_singleton.mp hu
    exact ⟨(hmem v).mpr rfl, hnan⟩

/-- A session whose model can be prepared is about to make a run that is due. -/
theorem isDue_due {w : Session Unit FileTree} (members : List Variable) (text : String)
    (hcomputed : w.solver.config.cacheDir = some "cache" ∧ w.solver.dirty = true
      ∧ (w.solver.prepare w.registry).isOk = true
      ∧ w.solver.variableSet.toOption.map VariableSet.toList = some members
      ∧ w.due.text.toOption = some text) :
    ∃ vars, w.due.IsDue "cache" text vars ∧ vars.toList = members := by
  obtain ⟨hdir, hdirty, hprepared, hmembers, htext⟩ := hcomputed
  cases hprepare : w.solver.prepare w.registry with
  | error e => rw [hprepare] at hprepared; cases hprepared
  | ok prepared =>
      obtain ⟨vars, start⟩ := prepared
      rw [Solver.variableSet_of_prepare hprepare] at hmembers
      exact ⟨vars, ⟨hdir, hdirty, ⟨start, hprepare⟩, eq_ok_of_toOption htext⟩,
        Option.some.inj hmembers⟩

/-- An engine has reported 2.75 for an integer variable between 0 and 5. -/
def rounded : Session Unit FileTree := reported .integer 5 "x" 2.75

/-- A session with a model of the same text, in which the variable has another
handle, and with an engine that fails. -/
def repeated : Session Unit FileTree :=
  run [.changeVariable (.declare "y" (.bounded .real 0 1)),
      .changeVariable (.declare "x" (.bounded .integer 0 5)),
      .setObjective ⟨.maximize, .ofVariable ⟨1, "x"⟩⟩]
    (start failing { Config.initial with cacheDir := some "cache" } ∅ ∅)

/-- The text of both models. -/
def roundedText : String :=
  "MAXIMIZE\n  x\nSUBJECT TO\nBOUNDS\n  x <= 5\nBINARY\nGENERAL\n  x\nEND\n"

theorem rounded_optimizes :
    ∃ vars, rounded.due.Optimizes "cache" roundedText rounded.files vars
      ∧ vars.toList = [⟨0, "x"⟩] :=
  optimizes_due roundedText (engine_reported ..) (by decide +kernel) (by decide +kernel)

/-- After a run for another model an engine that fails is spared, and the
value is 3. -/
theorem repeated_replayed :
    ∃ vars vars' found,
      rounded.due.Optimizes "cache" roundedText rounded.files vars
      ∧ (∀ r ∈ [(reported .real 3 "y" 2).due], r.Shares "cache")
      ∧ repeated.due.IsDue "cache" roundedText vars'
      ∧ (repeated.due.outcome ([(reported .real 3 "y" 2).due].foldl Run.leave
          (rounded.due.leave rounded.files))).1 = .ok .optimal
      ∧ repeated.due.solution ([(reported .real 3 "y" 2).due].foldl Run.leave
          (rounded.due.leave rounded.files)) = found
      ∧ ∃ x, found.value? ⟨1, "x"⟩ = some x ∧ (x == 3) = true := by
  obtain ⟨vars, hfirst, _⟩ := rounded_optimizes
  have hvalue : (rounded.due.solution rounded.files).value? ⟨0, "x"⟩ = some 3 := by
    decide +kernel
  have hdir : (reported .real 3 "y" 2).solver.config.cacheDir = some "cache" := by decide +kernel
  have hbetween : ∀ r ∈ [(reported .real 3 "y" 2).due], r.Shares "cache" := by
    intro r hr
    rw [List.mem_singleton.mp hr]
    exact .inl hdir
  obtain ⟨vars', hlater, hlist⟩ := isDue_due (w := repeated) [⟨1, "x"⟩] roundedText
    (by decide +kernel)
  obtain ⟨found, houtcome, _, hvalues, _⟩ := Run.optimum_replayed hfirst hbetween hlater
  have hx : (⟨1, "x"⟩ : Variable) ∈ vars' := VariableSet.mem_toList_iff.mp (by simp [hlist])
  refine ⟨vars, vars', found, hfirst, hbetween, hlater, ?_, ?_, hvalues _ hx _ _ hvalue rfl⟩
  · rw [houtcome]
  · rw [Run.solution, houtcome]

/-! ### Where a replay is not faithful -/

/-- The session after its run, when start values count. -/
def warmed : Session Unit FileTree :=
  run [.solve .none, .configure fun c => { c with warmStart := true }] rounded

/-- The start value of `x` is 8 and not below 5, so that the optimum is not
asked for. -/
theorem warmed_refused :
    warmed.solver.config.cacheDir = some "cache" ∧ warmed.solver.dirty = true
      ∧ warmed.due.text = .ok roundedText
      ∧ ∃ e, (warmed.due.outcome (rounded.due.leave rounded.files)).1 = .error (.model e) := by
  have hdir : warmed.solver.config.cacheDir = some "cache" := by decide +kernel
  have hdirty : warmed.solver.dirty = true := by decide +kernel
  have htext : warmed.due.text.toOption = some roundedText := by decide +kernel
  have hrefused : (warmed.solver.prepare warmed.registry).isOk = false := by decide +kernel
  -- What has been computed is all that is needed of the session.
  generalize warmed = w at *
  generalize rounded.due.leave rounded.files = files
  refine ⟨hdir, hdirty, eq_ok_of_toOption htext, ?_⟩
  cases hprepare : w.solver.prepare w.registry with
  | ok prepared => rw [hprepare] at hrefused; cases hrefused
  | error e =>
      have hsolve : w.due.outcome files = (.error (.model e), w.solver, files) :=
        Solver.solve_of_prepare_error hdirty hprepare .none files
      exact ⟨e, congrArg Prod.fst hsolve⟩

/-- An engine has reported 3 for a variable `-x`. -/
def signed : Session Unit FileTree := reported .real Binary64.infinity "-x" 3

/-- A session that maximizes the negative of a variable `x`. -/
def negated : Session Unit FileTree :=
  run [.changeVariable (.declare "x" (.bounded .real 0 Binary64.infinity)),
      .setObjective ⟨.maximize, .weighted ⟨0, "x"⟩ (-1)⟩]
    (start failing { Config.initial with cacheDir := some "cache" } ∅ ∅)

/-- The text of both models. -/
def signedText : String := "MAXIMIZE\n  -x\nSUBJECT TO\nBOUNDS\nBINARY\nGENERAL\nEND\n"

/-- The two models have no name in common, and the value is lost. -/
theorem negated_zero :
    ∃ vars vars', signed.due.Optimizes "cache" signedText signed.files vars
      ∧ (signed.due.solution signed.files).value? ⟨0, "-x"⟩ = some 3
      ∧ negated.due.IsDue "cache" signedText vars'
      ∧ (negated.due.solution (signed.due.leave signed.files)).value? ⟨0, "x"⟩ = some 0 := by
  have hvalue : (signed.due.solution signed.files).value? ⟨0, "-x"⟩ = some 3 := by decide +kernel
  obtain ⟨vars, hfirst, hmembers⟩ := optimizes_due (w := signed) signedText
    (engine_reported ..) (by decide +kernel) (by decide +kernel)
  obtain ⟨vars', hlater, hlist⟩ := isDue_due (w := negated) [⟨0, "x"⟩] signedText
    (by decide +kernel)
  refine ⟨vars, vars', hfirst, hvalue, hlater, ?_⟩
  obtain ⟨found, houtcome, _, _, hzero⟩ :=
    hfirst.outcome_later (List.forall_mem_nil _) hlater
  rw [List.foldl_nil] at houtcome
  have hx : (⟨0, "x"⟩ : Variable) ∈ vars' := VariableSet.mem_toList_iff.mp (by simp [hlist])
  rw [Run.solution, houtcome]
  refine hzero _ hx fun u x hu => ?_
  have hu := VariableSet.mem_toList_iff.mpr (hfirst.value hu).1
  rw [hmembers] at hu
  rw [List.mem_singleton.mp hu]
  decide

/-- An engine has reported infinity for an integer variable. -/
def unbounded : Session Unit FileTree := reported .integer Binary64.infinity "x" Binary64.infinity

/-- The text of the model. -/
def unboundedText : String :=
  "MAXIMIZE\n  x\nSUBJECT TO\nBOUNDS\nBINARY\nGENERAL\n  x\nEND\n"

/-- Infinity is not rounded, and it comes back. -/
theorem unbounded_replayed :
    ∃ vars vars', unbounded.due.Optimizes "cache" unboundedText unbounded.files vars
      ∧ unbounded.due.IsDue "cache" unboundedText vars'
      ∧ (unbounded.registry.attributes ⟨0, "x"⟩).kind = .integer
      ∧ (unbounded.due.solution (unbounded.due.leave unbounded.files)).value? ⟨0, "x"⟩
        = some Binary64.infinity
      ∧ Binary64.infinity.isFinite = false := by
  have hvalue : (unbounded.due.solution unbounded.files).value? ⟨0, "x"⟩
      = some Binary64.infinity := by decide +kernel
  have hkind : (unbounded.registry.attributes ⟨0, "x"⟩).kind = .integer := by decide +kernel
  obtain ⟨vars, hfirst, hmembers⟩ := optimizes_due (w := unbounded) unboundedText
    (engine_reported ..) (by decide +kernel) (by decide +kernel)
  obtain ⟨vars', hlater, hlist⟩ := isDue_due (w := unbounded) [⟨0, "x"⟩] unboundedText
    (by decide +kernel)
  refine ⟨vars, vars', hfirst, hlater, hkind, ?_, by decide +kernel⟩
  obtain ⟨found, houtcome, _, hvalues, _⟩ :=
    hfirst.outcome_later (List.forall_mem_nil _) hlater
  rw [List.foldl_nil] at houtcome
  have hx : (⟨0, "x"⟩ : Variable) ∈ vars' := VariableSet.mem_toList_iff.mp (by simp [hlist])
  rw [Run.solution, houtcome, hvalues _ hx _ _ hvalue rfl]
  decide +kernel

/-- In three ways a later run of a model with the text falls short: it has a
start value that is refused, its names are others, or the value of an
integer variable is infinite. -/
theorem replay_limits :
    (∃ vars, rounded.due.Optimizes "cache" roundedText rounded.files vars
        ∧ warmed.solver.config.cacheDir = some "cache" ∧ warmed.solver.dirty = true
        ∧ warmed.due.text = .ok roundedText
        ∧ ∃ e, (warmed.due.outcome (rounded.due.leave rounded.files)).1 = .error (.model e))
      ∧ (∃ vars vars', signed.due.Optimizes "cache" signedText signed.files vars
        ∧ (signed.due.solution signed.files).value? ⟨0, "-x"⟩ = some 3
        ∧ negated.due.IsDue "cache" signedText vars'
        ∧ (negated.due.solution (signed.due.leave signed.files)).value? ⟨0, "x"⟩ = some 0)
      ∧ ∃ vars vars', unbounded.due.Optimizes "cache" unboundedText unbounded.files vars
        ∧ unbounded.due.IsDue "cache" unboundedText vars'
        ∧ (unbounded.registry.attributes ⟨0, "x"⟩).kind = .integer
        ∧ (unbounded.due.solution (unbounded.due.leave unbounded.files)).value? ⟨0, "x"⟩
          = some Binary64.infinity
        ∧ Binary64.infinity.isFinite = false := by
  obtain ⟨vars, hfirst, _⟩ := rounded_optimizes
  exact ⟨⟨vars, hfirst, warmed_refused⟩, negated_zero, unbounded_replayed⟩

end Session
end LinearProgram
