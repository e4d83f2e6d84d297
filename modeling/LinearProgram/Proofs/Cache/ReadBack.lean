import LinearProgram.Proofs.Files.Tree
import LinearProgram.Proofs.LpText.Accepted.Documents
import LinearProgram.Proofs.Solution.Vector

/-!
# `LinearProgram.Proofs.Cache.ReadBack`: what a cache gives back

A solution that has been stored is fetched again, with the values that its
vector shows.

* `exists_home`: the files of a key stand side by side in one directory,
  whatever the key.
* `readText_of_store`: the file of a slot that has been filled is the
  vector of the solution, also after the text of the model has been put
  beside it.
* `fetch_of_store`: what is fetched has the objective that was stored, and
  of each value what is `recorded`.

`fetch_of_store_document` is about the variables of a text that has been
read. Their names may have a number sign in them, and for such a name the
cache loses the value: `markedName_lost`.
-/

set_option autoImplicit false

namespace LinearProgram

open Text (IsWord)

/-! ### Where the files of a key are -/

theorem Path.isDescent_singleton {part : String} (h : Path.IsStep part) :
    Path.IsDescent [part] :=
  ⟨List.cons_ne_nil _ _, fun _ hmem => List.mem_singleton.mp hmem ▸ h⟩

/-- A name continues a path behind its last slash. -/
theorem Path.join_singleton (directory : Path) (part : String) :
    directory.join [part]
      = (if directory.endsInSlash then directory.dropLast else directory) ++ [part] := by
  have hrelative : Path.isAbsolute [part] = false := by
    unfold Path.isAbsolute
    split
    · rename_i heq
      cases heq
    · rfl
  rw [Path.join, hrelative, if_neg Bool.false_ne_true]
  split <;> rfl

theorem Slot.isStep_file (slot : Slot) : Path.IsStep slot.file := by
  cases slot <;> exact ⟨by decide, by decide⟩

theorem Slot.file_injective {slot slot' : Slot} (h : slot.file = slot'.file) : slot = slot' := by
  cases slot <;> cases slot' <;> first | rfl | exact absurd h (by decide)

theorem isStep_model : Path.IsStep "model.lp" := ⟨by decide, by decide⟩

theorem Slot.file_ne_model (slot : Slot) : slot.file ≠ "model.lp" := by
  cases slot <;> decide

/-- The variables of a text have names that are names. -/
theorem LpText.isName_of_read {registry : Registry} {text : String} {v : Variable}
    (h : v ∈ (read registry text).1.variableSet) : isName v.name.toList = true := by
  obtain ⟨_, heq, _⟩ := read_spec registry text
  rw [heq] at h
  obtain ⟨e, he, _⟩ := Symbols.mem_variableSet_iff.mp h
  exact ((Draft.isAccepted_ofText registry text).named v.name e he).1

namespace Cache

/-- The files of a key stand side by side. -/
theorem exists_home (c : Cache) (key : String) :
    ∃ home : Path, (∀ slot, c.slotPath slot key = home ++ [slot.file])
      ∧ c.modelPath key = home ++ ["model.lp"] :=
  ⟨_, fun _ => Path.join_singleton .., Path.join_singleton ..⟩

section Storing

variable {δ : Type} [Storage δ] {c : Cache} {slot : Slot} {key : String} {s : Solution}
  {model : Option String} {files files' : δ}

/-- Storing a solution is making its directory, writing its vector and,
if it is there, writing the text of its model. -/
theorem store_eq_ok (h : c.store slot key s model files = (.ok (), files')) :
    ∃ before after, writeText (c.slotPath slot key) (s.vector true) before = (.ok (), after)
      ∧ (model = none ∧ files' = after
        ∨ ∃ text, model = some text
          ∧ files' = (writeText (c.modelPath key) text after).2) := by
  obtain ⟨_, before, _, h⟩ := LpText.action_bind_inv h
  obtain ⟨⟨⟩, after, hwrite, h⟩ := LpText.action_bind_inv h
  refine ⟨before, after, hwrite, ?_⟩
  cases model with
  | none =>
      cases h
      exact .inl ⟨rfl, rfl⟩
  | some text => exact .inr ⟨text, rfl, (congrArg Prod.snd h).symm⟩

variable [LawfulStorage δ]

/-- A slot that has been filled holds the vector of the solution. -/
theorem readText_of_store (h : c.store slot key s model files = (.ok (), files')) :
    readText files' (c.slotPath slot key) = .ok (s.vector true) := by
  obtain ⟨before, after, hwrite, hmodel⟩ := store_eq_ok h
  have hslot := readText_of_writeText hwrite
  rcases hmodel with ⟨_, rfl⟩ | ⟨text, _, rfl⟩
  · exact hslot
  · -- The text of the model goes into another file of the same directory.
    obtain ⟨home, hhome, hmodel⟩ := c.exists_home key
    rw [hhome] at hslot ⊢
    rw [hmodel]
    refine readText_of_writeText_beside (Path.isDescent_singleton slot.isStep_file)
      (Path.isDescent_singleton isStep_model) ?_ hslot text
    exact fun heq => slot.file_ne_model (List.head_eq_of_cons_eq heq)

/-- A solution that has been stored is fetched with what its vector shows. -/
theorem fetch_of_store (hs : SolutionFile.IsWritable s)
    (h : c.store slot key s model files = (.ok (), files')) (vars : VariableSet) :
    ∃ found, c.fetch files' slot key vars = .ok found
      ∧ found.objective = s.objective
      ∧ (∀ v ∈ vars, ∀ u x, s.value? u = some x → u.name = v.name →
        found.value? v = some (SolutionFile.recorded u x))
      ∧ ∀ v ∈ vars, (∀ u x, s.value? u = some x → u.name ≠ v.name) →
        found.value? v = some 0 := by
  obtain ⟨f, hf, hsolution⟩ := SolutionFile.solution_of_vector hs
  refine ⟨f.solution vars, ?_, hsolution vars⟩
  rw [fetch, slotFile, readText_of_store h]
  simp only [hf]
  rfl

/-! ### Solutions of a text -/

/-- The values of the variables of a text, stored and fetched again: the
objective is the same, and the values are too, but for the sign of a zero
and but for the variables that have a number sign in their names. Those
are all zero. -/
theorem fetch_of_store_document {registry : Registry} {text : String}
    (hs : ∀ v x, s.value? v = some x →
      v ∈ (LpText.read registry text).1.variableSet ∧ x.isNaN = false)
    (h : c.store slot key s model files = (.ok (), files')) :
    ∃ found, c.fetch files' slot key (LpText.read registry text).1.variableSet = .ok found
      ∧ found.objective = s.objective
      ∧ (∀ v x, s.value? v = some x →
        found.value? v = some (if '#' ∈ v.name.toList ∨ (x == 0) = true then 0 else x))
      ∧ (∀ v ∈ (LpText.read registry text).1.variableSet, s.value? v = none →
        found.value? v = some 0)
      ∧ ((∀ v x, s.value? v = some x → ∃ y, found.value? v = some y ∧ (y == x) = true)
        ↔ ∀ v x, s.value? v = some x → '#' ∈ v.name.toList → (x == 0) = true) := by
  have hwritable := SolutionFile.isWritable_of_mem (fun v x hx => (hs v x hx).1)
    fun v hv => LpText.isWord_of_isName (LpText.isName_of_read hv)
  obtain ⟨found, hfetch, hobjective, hvalue, hzero⟩ :=
    fetch_of_store hwritable h (LpText.read registry text).1.variableSet
  have hfound : ∀ v x, s.value? v = some x →
      found.value? v = some (SolutionFile.recorded v x) := fun v x hx =>
    hvalue v (hs v x hx).1 v x hx rfl
  -- The two models are the same, so every variable finds itself by its name.
  refine ⟨found, hfetch, hobjective, fun v x hx => ?_, fun v hv hnone => ?_, ?_⟩
  · rw [hfound v x hx, SolutionFile.recorded_eq]
  · refine hzero v hv fun u x hx hname => ?_
    obtain rfl := VariableSet.eq_of_name_eq (hs u x hx).1 hv hname
    rw [hnone] at hx
    cases hx
  · constructor
    · intro hall v x hx hmark
      obtain ⟨y, hy, heq⟩ := hall v x hx
      rw [hfound v x hx] at hy
      cases hy
      exact (SolutionFile.recorded_beq_iff (hs v x hx).2).mp heq hmark
    · intro hall v x hx
      exact ⟨_, hfound v x hx,
        (SolutionFile.recorded_beq_iff (hs v x hx).2).mpr (hall v x hx)⟩

end Storing

/-- A text in which a name has a number sign. -/
def markedText : String := "MAXIMIZE\n  x#1 + y\nEND\n"

/-- Values of its two variables. -/
def markedSolution : Solution := .of 7 (.ofList [(⟨0, "x#1"⟩, 5), (⟨1, "y"⟩, 2)])

theorem mem_markedText {v : Variable} {x : Float} (h : markedSolution.value? v = some x) :
    v ∈ (LpText.read ∅ markedText).1.variableSet ∧ x.isNaN = false := by
  have hlist : markedSolution.values.toList = [(⟨0, "x#1"⟩, 5), (⟨1, "y"⟩, 2)] := by
    decide +kernel
  have hvars : (LpText.read ∅ markedText).1.variableSet.toList = [⟨0, "x#1"⟩, ⟨1, "y"⟩] := by
    decide +kernel
  have hmem := OrderedMap.mem_toList_iff.mpr h
  rw [hlist] at hmem
  rw [← VariableSet.mem_toList_iff, hvars]
  rcases List.mem_cons.mp hmem with heq | hmem
  · cases heq
    exact ⟨by decide, by decide +kernel⟩
  · cases List.mem_singleton.mp hmem
    exact ⟨by decide, by decide +kernel⟩

/-- Of the values 5 of `x#1` and 2 of `y` the second is found again. -/
theorem markedText_fetched :
    (∀ v x, markedSolution.value? v = some x →
        v ∈ (LpText.read ∅ markedText).1.variableSet ∧ x.isNaN = false)
      ∧ ∃ files' found,
        store ⟨["cache"]⟩ .feasible "key" markedSolution (some markedText) (∅ : FileTree)
            = (.ok (), files')
        ∧ fetch ⟨["cache"]⟩ files' .feasible "key" (LpText.read ∅ markedText).1.variableSet
            = .ok found
        ∧ found.objective = 7
        ∧ found.value? ⟨0, "x#1"⟩ = some 0 ∧ found.value? ⟨1, "y"⟩ = some 2 := by
  have hx : markedSolution.value? ⟨0, "x#1"⟩ = some 5 := by decide +kernel
  have hy : markedSolution.value? ⟨1, "y"⟩ = some 2 := by decide +kernel
  have hobjective : markedSolution.objective = 7 := rfl
  have hok : (store ⟨["cache"]⟩ .feasible "key" markedSolution (some markedText)
      (∅ : FileTree)).1.isOk = true := by decide +kernel
  rcases hstore : store ⟨["cache"]⟩ .feasible "key" markedSolution (some markedText)
    (∅ : FileTree) with ⟨e | ⟨⟩, files'⟩
  · rw [hstore] at hok
    cases hok
  · obtain ⟨found, hfetch, hfound, hvalues, _⟩ :=
      fetch_of_store_document (fun v x => mem_markedText) hstore
    refine ⟨fun v x => mem_markedText, files', found, rfl, hfetch, hfound.trans hobjective, ?_, ?_⟩
    · rw [hvalues _ _ hx, if_pos (.inl (by decide))]
    · rw [hvalues _ _ hy, if_neg (by decide +kernel)]

/-- The name `x#1` is one that a text may have, and the value 5 that is
stored for it is fetched as 0. -/
theorem markedName_lost :
    (LpText.read ∅ markedText).1.problems = []
      ∧ (∀ v x, markedSolution.value? v = some x →
        v ∈ (LpText.read ∅ markedText).1.variableSet ∧ x.isNaN = false)
      ∧ markedSolution.value? ⟨0, "x#1"⟩ = some 5
      ∧ ∃ files' found,
        store ⟨["cache"]⟩ .optimal "key" markedSolution none (∅ : FileTree) = (.ok (), files')
        ∧ fetch ⟨["cache"]⟩ files' .optimal "key" (LpText.read ∅ markedText).1.variableSet
            = .ok found
        ∧ found.value? ⟨0, "x#1"⟩ = some 0 := by
  have hproblems : (LpText.read ∅ markedText).1.problems.isEmpty = true := by decide +kernel
  have hx : markedSolution.value? ⟨0, "x#1"⟩ = some 5 := by decide +kernel
  have hwritable := SolutionFile.isWritable_of_mem (fun v x hx => (mem_markedText hx).1)
    fun v hv => LpText.isWord_of_isName (LpText.isName_of_read hv)
  have hok : (store ⟨["cache"]⟩ .optimal "key" markedSolution none (∅ : FileTree)).1.isOk
      = true := by decide +kernel
  refine ⟨List.isEmpty_iff.mp hproblems, fun v x => mem_markedText, hx, ?_⟩
  rcases hstore : store ⟨["cache"]⟩ .optimal "key" markedSolution none (∅ : FileTree)
    with ⟨e | ⟨⟩, files'⟩
  · rw [hstore] at hok
    cases hok
  · obtain ⟨found, hfetch, _, hvalues, _⟩ :=
      fetch_of_store hwritable hstore (LpText.read ∅ markedText).1.variableSet
    refine ⟨files', found, rfl, hfetch, ?_⟩
    rw [hvalues _ (mem_markedText hx).1 _ _ hx rfl,
      SolutionFile.recorded_eq, if_pos (.inl (by decide))]

end Cache

end LinearProgram
