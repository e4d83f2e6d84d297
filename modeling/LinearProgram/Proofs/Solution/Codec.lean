import LinearProgram.Proofs.Model.Renaming
import LinearProgram.Proofs.Solution.Vector

/-!
# `LinearProgram.Proofs.Solution.Codec`: what is written is read

A solution is written as a vector and read back for a set of variables.
Where the names of the set are words without a number sign, nothing is lost
but the sign of a zero (`value?_of_vector`).

A vector knows variables by their names. Variables that have been created
in another order are other variables, and they are sorted differently in
the solution; `IsNamesake` compares two solutions without regard to that.
They have the same vector (`IsNamesake.vector_eq`), and it is read in the
same way for the variables of either (`vector_readsBack`).
-/

set_option autoImplicit false

namespace LinearProgram

open Text (IsWord)

/-! ### Solutions by name -/

namespace Solution

/-- Whether two solutions have the same objective and, for each name, the
same values. -/
structure IsNamesake (s s' : Solution) : Prop where
  objective : s.objective = s'.objective
  values : ∀ name x, (∃ v, s.value? v = some x ∧ v.name = name)
    ↔ ∃ v, s'.value? v = some x ∧ v.name = name

/-- Whether no two variables with values share a name. -/
def HasDistinctNames (s : Solution) : Prop :=
  ∀ v w x y, s.value? v = some x → s.value? w = some y → v.name = w.name → v = w

variable {s s' : Solution}

theorem labels_byName_ascending (h : s.HasDistinctNames) :
    (s.byName.map Term.label).Pairwise fun a b => a.1 < b.1 := by
  refine Term.label_sortByName_ascending fun v hv w hw => ?_
  obtain ⟨x, hx⟩ := Term.mem_keys.mp hv
  obtain ⟨y, hy⟩ := Term.mem_keys.mp hw
  exact h v w x y hx hy

/-- The lines of a vector are known from the names. -/
theorem vector_eq_labels (compact : Bool) (s : Solution) :
    s.vector compact = objectiveLine s.objective
      ++ String.join ((s.byName.map Term.label).map fun p => valueLine compact ⟨0, p.1⟩ p.2) := by
  rw [List.map_map]
  rfl

theorem IsNamesake.vector_eq (h : s.IsNamesake s') (hs : s.HasDistinctNames)
    (hs' : s'.HasDistinctNames) (compact : Bool) : s.vector compact = s'.vector compact := by
  have hlabels : s.byName.map Term.label = s'.byName.map Term.label := by
    refine Term.eq_of_mem_iff (labels_byName_ascending hs) (labels_byName_ascending hs') ?_
    intro name x
    rw [byName, Term.mem_label_sortByName, byName, Term.mem_label_sortByName]
    exact h.values name x
  rw [vector_eq_labels, vector_eq_labels, h.objective, hlabels]

/-- Variables of one set have different names. -/
theorem hasDistinctNames_of_mem {vars : VariableSet} (h : ∀ v x, s.value? v = some x → v ∈ vars) :
    s.HasDistinctNames := fun v w x y hx hy =>
  VariableSet.eq_of_name_eq (h v x hx) (h w y hy)

end Solution

/-! ### Reading for a set -/

namespace SolutionFile

theorem value?_solution_eq_none {f : SolutionFile} {vars : VariableSet} {v : Variable}
    (hv : v ∉ vars) : (f.solution vars).value? v = none := by
  refine OrderedMap.get?_ofList_eq_none fun p hp heq => ?_
  obtain ⟨w, hw, rfl⟩ := List.mem_map.mp hp
  exact hv (heq ▸ VariableSet.mem_toList_iff.mp hw)

section

variable {vars : VariableSet} {s : Solution}

/-- What is read for a variable: its value, up to the sign of a zero, and
zero if it has none. -/
theorem value?_of_vector (hword : ∀ v ∈ vars, IsWord v.name.toList)
    (hmark : ∀ v ∈ vars, '#' ∉ v.name.toList) (hmem : ∀ v x, s.value? v = some x → v ∈ vars)
    (hnumber : ∀ v x, s.value? v = some x → x.isNaN = false) :
    ∃ f, ofText (s.vector true) = .ok f ∧ f.objective = s.objective ∧ ∀ v ∈ vars,
      (∀ x, s.value? v = some x →
          ∃ y, (f.solution vars).value? v = some y ∧ (y == x) = true)
        ∧ (s.value? v = none → (f.solution vars).value? v = some 0) := by
  obtain ⟨f, hread, hf⟩ := solution_of_vector (isWritable_of_mem hmem hword)
  obtain ⟨hobjective, hvalue, hzero⟩ := hf vars
  refine ⟨f, hread, hobjective, fun v hv => ⟨fun x hx => ?_, fun hnone => ?_⟩⟩
  · exact ⟨_, hvalue v hv v x hx rfl,
      (recorded_beq_iff (hnumber v x hx)).mpr fun h => absurd h (hmark v hv)⟩
  · -- A value for this name would be one of this variable.
    refine hzero v hv fun u x hx hname => ?_
    rw [VariableSet.eq_of_name_eq (hmem u x hx) hv hname, hnone] at hx
    cases hx

end

/-- A solution is read back from its compact vector, for a set of variables
whose names are words without a number sign: the objective, the value of
each variable up to the sign of a zero, and zero where there is none. The
order in which the variables have been created does not matter, neither
for the vector nor for what is read. -/
theorem vector_readsBack (vars : VariableSet)
    (hword : ∀ v ∈ vars, IsWord v.name.toList ∧ '#' ∉ v.name.toList) (s : Solution)
    (hs : ∀ v x, s.value? v = some x → v ∈ vars ∧ x.isNaN = false) :
    ∃ f, ofText (s.vector true) = .ok f
      ∧ (f.solution vars).objective = s.objective
      ∧ (∀ v ∈ vars, (∀ x, s.value? v = some x →
            ∃ y, (f.solution vars).value? v = some y ∧ (y == x) = true)
          ∧ (s.value? v = none → (f.solution vars).value? v = some 0))
      ∧ (∀ v, v ∉ vars → (f.solution vars).value? v = none)
      ∧ ∀ (vars' : VariableSet) (s' : Solution), (∀ v x, s'.value? v = some x → v ∈ vars') →
          s.IsNamesake s' →
          s'.vector true = s.vector true
            ∧ (f.solution vars').objective = s.objective
            ∧ ∀ v ∈ vars, ∀ v' ∈ vars', v'.name = v.name →
              (f.solution vars').value? v' = (f.solution vars).value? v := by
  obtain ⟨f, hread, hobjective, hvalues⟩ := value?_of_vector (fun v hv => (hword v hv).1)
    (fun v hv => (hword v hv).2) (fun v x hx => (hs v x hx).1) fun v x hx => (hs v x hx).2
  refine ⟨f, hread, hobjective, hvalues, fun v => value?_solution_eq_none,
    fun vars' s' hs' hsame => ⟨?_, hobjective, fun v hv v' hv' hname => ?_⟩⟩
  · exact (hsame.vector_eq (Solution.hasDistinctNames_of_mem fun v x hx => (hs v x hx).1)
      (Solution.hasDistinctNames_of_mem hs') true).symm
  · rw [value?_solution hv, value?_solution hv', hname]

/-- Two variables, one of them with a name beyond ASCII. -/
def sizes : VariableSet := ((∅ : VariableSet).put ⟨0, "x"⟩).put ⟨1, "größe"⟩

/-- A value for the second one. -/
def sized : Solution := .of 2.5 (.ofList [(⟨1, "größe"⟩, 0.5)])

theorem sized_isRead :
    ∃ f, ofText (sized.vector true) = .ok f ∧ (f.solution sizes).objective = 2.5
      ∧ (f.solution sizes).value? ⟨0, "x"⟩ = some 0
      ∧ ∃ y, (f.solution sizes).value? ⟨1, "größe"⟩ = some y ∧ (y == 0.5) = true := by
  have hx : (⟨0, "x"⟩ : Variable) ∈ sizes := VariableSet.contains_iff.mp (by decide +kernel)
  have hsize : (⟨1, "größe"⟩ : Variable) ∈ sizes := VariableSet.contains_iff.mp (by decide +kernel)
  have hlist : sizes.toList = [⟨1, "größe"⟩, ⟨0, "x"⟩] := by decide +kernel
  have hword : ∀ v ∈ sizes, IsWord v.name.toList ∧ '#' ∉ v.name.toList := by
    intro v hv
    rw [← VariableSet.mem_toList_iff, hlist] at hv
    revert v
    decide +kernel
  have hvalue : sized.values.toList = [(⟨1, "größe"⟩, 0.5)] := by decide +kernel
  have hs : ∀ v x, sized.value? v = some x → v ∈ sizes ∧ x.isNaN = false := by
    intro v x hx
    have hmem := OrderedMap.mem_toList_iff.mpr hx
    rw [hvalue, List.mem_singleton] at hmem
    cases hmem
    exact ⟨hsize, by decide +kernel⟩
  obtain ⟨f, hread, hobjective, hvalues, -⟩ := vector_readsBack sizes hword sized hs
  exact ⟨f, hread, hobjective, (hvalues _ hx).2 (by decide +kernel),
    (hvalues _ hsize).1 _ (by decide +kernel)⟩

end SolutionFile

end LinearProgram
