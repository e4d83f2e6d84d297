import LinearProgram.Proofs.Files.Tree
import LinearProgram.Proofs.Solution.Torn
import LinearProgram.Proofs.Solver.Caching

/-!
# `LinearProgram.Proofs.Cache.Incomplete`: entries of a cache that are not complete

Whatever a file of a cache says, it is read as a solution if there are
numbers wherever there should be. An objective that is announced is
stated then, but none has to be announced: a file without one is read
with the objective zero.

* `slotFile_cases` is what a file is read as. From it follows what is
  fetched (`fetch_cases`), what a new solution has to improve
  (`welcomes_cases`) and what a run is served (`solve_cases`).
* `entries_read` puts them together with the vectors that are cut off:
  these are read as zero until the announcement is complete, and are
  refused or state an objective from there on.
* `emptyEntry_served`: so an empty file is an optimum.
-/

set_option autoImplicit false

namespace LinearProgram

open SolutionFile (IsReadable Marks States)

namespace Cache

section

variable {δ : Type} [Storage δ] {c : Cache} {files : δ} {slot : Slot} {key text : String}

theorem slotFile_eq (h : readText files (c.slotPath slot key) = .ok text) :
    c.slotFile files slot key = (SolutionFile.ofText text).mapError .number := by
  rw [slotFile, h]
  cases hfile : SolutionFile.ofText text <;> simp only [hfile] <;> rfl

/-- A file states an objective, or announces none and has the objective
zero, or has something else than a number somewhere. -/
theorem slotFile_cases (h : readText files (c.slotPath slot key) = .ok text) :
    IsReadable text ∧ (∃ f, c.slotFile files slot key = .ok f
        ∧ (States text ∨ ¬ Marks text ∧ f.objective = 0))
      ∨ ¬ IsReadable text ∧ ∃ e, c.slotFile files slot key = .error (.number e) := by
  rw [slotFile_eq h]
  rcases SolutionFile.ofText_cases text with ⟨hread, e, heq⟩ | ⟨hread, values, heq⟩
  · exact .inr ⟨hread, e, by rw [heq]; rfl⟩
  · refine .inl ⟨hread, _, by rw [heq]; rfl, ?_⟩
    by_cases hmarks : Marks text
    · exact .inl ((SolutionFile.states_iff_marks hread).mpr hmarks)
    · refine .inr ⟨hmarks, ?_⟩
      rw [SolutionFile.statedObjectives_of_not_marks hmarks]
      rfl

theorem fetch_cases (h : readText files (c.slotPath slot key) = .ok text) (vars : VariableSet) :
    IsReadable text ∧ (∃ found, c.fetch files slot key vars = .ok found
        ∧ (States text ∨ ¬ Marks text ∧ found.objective = 0))
      ∨ ¬ IsReadable text ∧ ∃ e, c.fetch files slot key vars = .error (.number e) := by
  rcases slotFile_cases h with ⟨hread, f, heq, hobjective⟩ | ⟨hread, e, heq⟩
  · exact .inl ⟨hread, f.solution vars, by rw [fetch, heq]; rfl, hobjective⟩
  · exact .inr ⟨hread, e, by rw [fetch, heq]; rfl⟩

variable [LawfulStorage δ]

/-- A file without an objective in the feasible slot stands for zero. -/
theorem welcomes_cases (h : readText files (c.slotPath .feasible key) = .ok text) (sense : Sense)
    (objective : Float) :
    IsReadable text ∧ (∃ incumbent,
        c.welcomes files key sense objective = .ok (sense.improves objective incumbent)
          ∧ (States text ∨ ¬ Marks text ∧ incumbent = 0))
      ∨ ¬ IsReadable text ∧ ∃ e, c.welcomes files key sense objective = .error (.number e) := by
  have hholds : c.holds files .feasible key = true := isFile_of_readText h
  rcases slotFile_cases h with ⟨hread, f, heq, hobjective⟩ | ⟨hread, e, heq⟩
  · refine .inl ⟨hread, f.objective, ?_, hobjective⟩
    rw [welcomes, if_pos hholds, heq]
    rfl
  · refine .inr ⟨hread, e, ?_⟩
    rw [welcomes, if_pos hholds, heq]
    rfl

/-- A run is served a file of the optimal slot if it is readable, and then
only, whether or not there is an objective in it. -/
theorem solve_cases {σ : Type} {registry : Registry} {times : Durations} {s : Solver σ}
    {vars : VariableSet} {start : Assignment} (hdirty : s.dirty = true)
    (hprepare : s.prepare registry = .ok (vars, start)) (hcache : s.cache? = some c)
    (h : readText files (c.slotPath .optimal (s.key registry vars)) = .ok text) :
    IsReadable text ∧ (∃ found, Solver.solve registry times (s, files) = (.ok .optimal,
          ({ s with solution := found, status := .optimal, dirty := false }, files))
        ∧ (States text ∨ ¬ Marks text ∧ found.objective = 0))
      ∨ ¬ IsReadable text ∧ s.LacksOptimum registry files vars := by
  have hholds : c.holds files .optimal (s.key registry vars) = true := isFile_of_readText h
  rcases slotFile_cases h with ⟨hread, f, heq, hobjective⟩ | ⟨hread, e, heq⟩
  · exact .inl ⟨hread, f.solution vars,
      Solver.solve_of_kept hdirty hprepare hcache ⟨hholds, heq⟩, hobjective⟩
  · refine .inr ⟨hread, fun cache f hcache' hkeeps => ?_⟩
    cases hcache.symm.trans hcache'
    have hfile := hkeeps.readable
    rw [heq] at hfile
    cases hfile

end

/-- What becomes of any file in a cache. It is a solution, an incumbent or
an optimum exactly if all of it is readable, and then it states an
objective unless it announces none. A vector that is cut off announces
none as long as the announcement is not complete. -/
theorem entries_read {δ σ : Type} [Storage δ] [LawfulStorage δ] (c : Cache) (files : δ)
    (key text : String) :
    (∀ slot vars, readText files (c.slotPath slot key) = .ok text →
        IsReadable text ∧ (∃ found, c.fetch files slot key vars = .ok found
            ∧ (States text ∨ ¬ Marks text ∧ found.objective = 0))
          ∨ ¬ IsReadable text ∧ ∃ e, c.fetch files slot key vars = .error (.number e))
      ∧ (∀ sense objective, readText files (c.slotPath .feasible key) = .ok text →
        IsReadable text ∧ (∃ incumbent,
            c.welcomes files key sense objective = .ok (sense.improves objective incumbent)
              ∧ (States text ∨ ¬ Marks text ∧ incumbent = 0))
          ∨ ¬ IsReadable text
            ∧ ∃ e, c.welcomes files key sense objective = .error (.number e))
      ∧ (∀ registry times (s : Solver σ) vars start, s.dirty = true →
        s.prepare registry = .ok (vars, start) → s.cache? = some c → s.key registry vars = key →
        readText files (c.slotPath .optimal key) = .ok text →
          IsReadable text ∧ (∃ found, Solver.solve registry times (s, files) = (.ok .optimal,
                ({ s with solution := found, status := .optimal, dirty := false }, files))
              ∧ (States text ∨ ¬ Marks text ∧ found.objective = 0))
            ∨ ¬ IsReadable text ∧ s.LacksOptimum registry files vars)
      ∧ ∀ s : Solution, text.toList <+: (s.vector true).toList →
        (Marks text ↔ SolutionFile.heading.length ≤ text.toList.length)
          ∧ (¬ Marks text → SolutionFile.ofText text = .ok .empty) := by
  refine ⟨fun slot vars h => fetch_cases h vars, fun sense objective h =>
    welcomes_cases h sense objective, fun registry times s vars start hdirty hprepare hcache
    hkey h => ?_, fun s h => SolutionFile.ofText_torn h⟩
  subst hkey
  exact solve_cases hdirty hprepare hcache h

end Cache

namespace Session

/-- The text of the model that maximizes a variable `x` between 0 and 10. -/
def seededKey : String := Fingerprint.ofText
  "MAXIMIZE\n  x\nSUBJECT TO\nBOUNDS\n  x <= 10\nBINARY\nGENERAL\nEND\n"

/-- A session with this model and an engine that finds no solution of it.
A text stands in a slot of the cache. -/
def seededSession (slot : Slot) (text : String) : Session Unit FileTree :=
  run [.changeVariable (.declare "x" (.bounded .real 0 10)),
      .setObjective ⟨.maximize, .ofVariable ⟨0, "x"⟩⟩,
      .changeFiles fun files =>
        (writeText (Cache.slotPath ⟨["cache"]⟩ slot seededKey) text
          (Storage.createDirectories (Cache.directory ⟨["cache"]⟩ seededKey) files).2).2]
    (start (reporting .infeasible ∅) { Config.initial with cacheDir := some "cache" } ∅ ∅)

/-- The beginning of a vector is an optimum with the objective zero, as
long as the announcement of the objective is not complete. -/
theorem tornEntry_served :
    readText (seededSession .optimal "# objective val").files
        (Cache.slotPath ⟨Path.ofText "cache"⟩ .optimal seededKey) = .ok "# objective val"
      ∧ (seededSession .optimal "# objective val").solver.dirty = true
      ∧ "# objective val".toList <+: ((Solution.of 3 ∅).vector true).toList
      ∧ SolutionFile.ofText "# objective val" = .ok .empty
      ∧ ∃ found, found.objective = 0
        ∧ Solver.solve (seededSession .optimal "# objective val").registry .none
            ((seededSession .optimal "# objective val").solver,
              (seededSession .optimal "# objective val").files)
          = (.ok .optimal, ({ (seededSession .optimal "# objective val").solver with
              solution := found
              status := .optimal
              dirty := false }, (seededSession .optimal "# objective val").files)) := by
  have hread : (readText (seededSession .optimal "# objective val").files
      (Cache.slotPath ⟨Path.ofText "cache"⟩ .optimal seededKey)).toOption
        = some "# objective val" := by decide +kernel
  have hdirty : (seededSession .optimal "# objective val").solver.dirty = true := by decide +kernel
  have hdir : (seededSession .optimal "# objective val").solver.config.cacheDir = some "cache" := by
    decide +kernel
  have hvars : ((seededSession .optimal "# objective val").solver.prepare
      (seededSession .optimal "# objective val").registry).toOption.map
        (fun p => (seededSession .optimal "# objective val").solver.key
          (seededSession .optimal "# objective val").registry p.1) = some seededKey := by
    decide +kernel
  have hprefix : "# objective val".toList <+: ((Solution.of 3 ∅).vector true).toList := by
    decide +kernel
  have hmarks : ¬ Marks "# objective val" := by decide +kernel
  generalize seededSession .optimal "# objective val" = w at *
  obtain ⟨⟨vars, start⟩, hprepare, hkey⟩ := Option.map_eq_some_iff.mp hvars
  obtain ⟨-, -, hsolve, htorn⟩ := Cache.entries_read (σ := Unit) ⟨Path.ofText "cache"⟩ w.files
    seededKey "# objective val"
  have hempty := (htorn _ hprefix).2 hmarks
  refine ⟨eq_ok_of_toOption hread, hdirty, hprefix, hempty, ?_⟩
  rcases SolutionFile.ofText_cases "# objective val" with ⟨-, e, herror⟩ | ⟨hreadable, -⟩
  · rw [hempty] at herror
    cases herror
  rcases hsolve w.registry .none w.solver vars start hdirty (eq_ok_of_toOption hprepare)
    (Solver.cache?_of_some hdir) hkey (eq_ok_of_toOption hread) with
    ⟨-, found, hserved, hstates | ⟨-, hzero⟩⟩ | ⟨hunreadable, -⟩
  · exact absurd ((SolutionFile.states_iff_marks hreadable).mp hstates) hmarks
  · exact ⟨found, hzero, hserved⟩
  · exact absurd hreadable hunreadable

/-- An empty file states no objective. In the optimal slot it is an
optimum with the objective zero, though the engine finds that there is no
solution, and in the feasible slot it keeps a solution away. -/
theorem emptyEntry_served :
    ¬ States ""
      ∧ readText (seededSession .optimal "").files
        (Cache.slotPath ⟨Path.ofText "cache"⟩ .optimal seededKey) = .ok ""
      ∧ (∃ found, Cache.fetch ⟨Path.ofText "cache"⟩ (seededSession .optimal "").files .optimal
        seededKey ∅ = .ok found ∧ found.objective = 0)
      ∧ Cache.welcomes ⟨Path.ofText "cache"⟩ (seededSession .feasible "").files seededKey
        .maximize (-1) = .ok false
      ∧ (Solver.solve (seededSession .optimal "").registry .none
        ((seededSession .optimal "").solver, (∅ : FileTree))).1 = .ok .infeasible
      ∧ (Solver.solve (seededSession .optimal "").registry .none
        ((seededSession .optimal "").solver, (seededSession .optimal "").files)).1
          = .ok .optimal := by
  have hfetched : ((Cache.fetch ⟨Path.ofText "cache"⟩ (seededSession .optimal "").files .optimal
      seededKey ∅).toOption.map Solution.objective) = some 0 := by decide +kernel
  obtain ⟨found, hfound, hobjective⟩ := Option.map_eq_some_iff.mp hfetched
  have hmarks : ¬ Marks "" := by decide +kernel
  have hreadable : IsReadable "" := fun line hline => absurd hline List.not_mem_nil
  refine ⟨(SolutionFile.states_iff_marks hreadable).not.mpr hmarks,
    eq_ok_of_toOption ?_, ⟨found, eq_ok_of_toOption hfound, hobjective⟩,
    eq_ok_of_toOption ?_, eq_ok_of_toOption ?_, eq_ok_of_toOption ?_⟩ <;> decide +kernel

end Session

end LinearProgram
