import LinearProgram.Proofs.LpText.Accepted.Documents
import LinearProgram.Proofs.Solver.Admission

/-!
# `LinearProgram.Proofs.Solver.Loading`: replacing a model by a text

In a text a name stands for one variable throughout. The model that is
read, however much of the text is wrong, has therefore unambiguous
names, and a solver takes it over whole: `loadText_eq` is the complete
equation of `loadText`, and a failure is not among its outcomes. What
can fail about `loadLpFile` is the reading of the file.

`loadText_document` puts together what a solver has after a text has
been loaded: the document is closed, nothing of the earlier model is
left, and the solver writes what was read.
-/

set_option autoImplicit false

namespace LinearProgram

namespace LpText

/-- What occurs in the model of a text is among the variables of the
text, whatever cannot be read of it. -/
theorem mem_variableSet_of_occurs {registry : Registry} {text : String} {v : Variable}
    (h : (read registry text).1.model.Occurs v) : v ∈ (read registry text).1.variableSet := by
  have haccepted := Draft.isAccepted_ofText registry text
  obtain ⟨_, heq, _⟩ := read_spec registry text
  rw [heq] at h ⊢
  generalize Draft.ofText registry text = d at haccepted h ⊢
  show v ∈ d.symbols.variableSet
  rcases h with h | ⟨c, hc, h⟩
  · have h : v ∈ (d.objective.getD .zero).term.occurring := h
    cases hobjective : d.objective with
    | none =>
        rw [hobjective] at h
        exact absurd h List.not_mem_nil
    | some o =>
        rw [hobjective] at h
        exact ((haccepted.objective o hobjective).known v h).mem
  · exact ((haccepted.constraints c hc).knows h).mem

/-- The names of a model that has been read are unambiguous. -/
theorem hasDistinctNames_of_read (registry : Registry) (text : String) :
    (read registry text).1.model.HasDistinctNames := fun _ _ hv hw hname =>
  VariableSet.eq_of_name_eq (mem_variableSet_of_occurs hv.occurs)
    (mem_variableSet_of_occurs hw.occurs) hname

/-- Whether what occurs in a document is what the document has under its
name, and the variables of different names are different ones. -/
structure Document.IsClosed (doc : Document) : Prop where
  found : ∀ v, doc.model.Occurs v → doc.variableSet.get? v.name = some v
  distinct : ∀ v ∈ doc.variableSet, ∀ w ∈ doc.variableSet, v.id = w.id → v = w

theorem isClosed_of_read (registry : Registry) (text : String) :
    (read registry text).1.IsClosed := by
  refine ⟨fun v hv => mem_variableSet_of_occurs hv, ?_⟩
  obtain ⟨_, heq, _⟩ := read_spec registry text
  rw [heq]
  exact (Draft.isAccepted_ofText registry text).sound.distinct

/-- A guard that has been read has no guard, so that all variables of a
model stand at one level of guards. -/
theorem occursShallow_of_read {registry : Registry} {text : String} {v : Variable}
    (h : (read registry text).1.model.Occurs v) :
    (read registry text).1.model.OccursShallow v := by
  obtain ⟨_, heq, _⟩ := read_spec registry text
  rw [heq] at h ⊢
  refine h.imp_right fun ⟨c, hc, hv⟩ => ⟨c, hc, ?_⟩
  have haccepted := (Draft.isAccepted_ofText registry text).constraints c hc
  cases c with
  | plain row => exact .inl hv
  | guarded g row =>
      obtain ⟨grow, rfl, _⟩ := haccepted.1.1.plain
      exact hv.imp_right fun hv => ⟨_, rfl, hv⟩

/-- A model that has been read has a set of variables, which are some of
those of the text. -/
theorem exists_variableSet_of_read (registry : Registry) (text : String) :
    ∃ vars, (read registry text).1.model.variableSet = .ok vars
      ∧ (∀ v, v ∈ vars ↔ (read registry text).1.model.Occurs v)
      ∧ ∀ v ∈ vars, v ∈ (read registry text).1.variableSet := by
  obtain ⟨vars, hvars⟩ :=
    (Model.exists_variableSet_iff _).mpr (hasDistinctNames_of_read registry text)
  have hmem : ∀ v, v ∈ vars ↔ (read registry text).1.model.Occurs v := fun v =>
    (Model.mem_variableSet_iff hvars v).trans
      ⟨Model.OccursShallow.occurs, occursShallow_of_read⟩
  exact ⟨vars, hvars, hmem, fun v hv => mem_variableSet_of_occurs ((hmem v).mp hv)⟩

end LpText

namespace Solver

variable {σ : Type}

/-- Loading a text gives its problems and replaces the model. -/
theorem loadText_eq (text : String) (s : Solver σ) (registry : Registry) :
    ∃ all, loadText text (s, registry)
        = (.ok (LpText.read registry text).1.problems,
          ({ s with
              model := (LpText.read registry text).1.model
              constraintVariables := all
              startValues := ∅
              dirty := true },
            (LpText.read registry text).2))
      ∧ ∀ v, v ∈ all ↔ ∃ c ∈ (LpText.read registry text).1.model.constraints,
        c.OccursShallow v := by
  obtain ⟨all, heq, hall⟩ := loadModel_eq (LpText.hasDistinctNames_of_read registry text) s
  refine ⟨all, ?_, hall⟩
  simp only [loadText, heq]

/-- After a text has been loaded, the solver is in step. -/
theorem isInStep_loadText (text : String) (s : Solver σ) (registry : Registry) :
    (loadText text (s, registry)).2.1.IsInStep := by
  obtain ⟨all, heq, hall⟩ := loadText_eq text s registry
  rw [heq]
  exact ⟨hall, LpText.hasDistinctNames_of_read registry text⟩

/-- Whatever a solver holds and whatever a text says, the text is loaded,
its problems are the result, and what the solver holds and writes then
is the model of the text alone. -/
theorem loadText_document (text : String) (s : Solver σ) (registry : Registry) :
    (LpText.read registry text).1.IsClosed
      ∧ ∃ vars s', (LpText.read registry text).1.model.variableSet = .ok vars
        ∧ (∀ v, v ∈ vars ↔ (LpText.read registry text).1.model.Occurs v)
        ∧ (∀ v ∈ vars, v ∈ (LpText.read registry text).1.variableSet)
        ∧ loadText text (s, registry)
          = (.ok (LpText.read registry text).1.problems, (s', (LpText.read registry text).2))
        ∧ s'.model = (LpText.read registry text).1.model ∧ s'.startValues = ∅
        ∧ (∀ v, v ∈ s'.constraintVariables ↔
          ∃ c ∈ (LpText.read registry text).1.model.constraints, c.OccursShallow v)
        ∧ s'.lpText (LpText.read registry text).2
          = .ok (LpText.write (LpText.read registry text).2
              (LpText.read registry text).1.model vars) := by
  obtain ⟨vars, hvars, hoccurs, hmem⟩ := LpText.exists_variableSet_of_read registry text
  obtain ⟨all, heq, hall⟩ := loadText_eq text s registry
  refine ⟨LpText.isClosed_of_read registry text, vars, _, hvars, hoccurs, hmem, heq, rfl, rfl,
    hall, ?_⟩
  rw [lpText, variableSet, hvars]
  rfl

/-- A file is loaded like its text, or it cannot be read and nothing
happens. -/
theorem loadLpFile_cases {δ : Type} [Storage δ] (files : δ) (path : Path) (s : Solver σ)
    (registry : Registry) :
    (∃ text problems world, readText files path = .ok text
        ∧ loadText text (s, registry) = (.ok problems, world)
        ∧ loadLpFile files path (s, registry) = (.ok problems, world))
      ∨ ∃ e, readText files path = .error e
        ∧ loadLpFile files path (s, registry) = (.error (.file e), (s, registry)) := by
  cases hread : readText files path with
  | error e => exact .inr ⟨e, rfl, by simp only [loadLpFile, hread]⟩
  | ok text =>
      obtain ⟨all, heq, _⟩ := loadText_eq text s registry
      exact .inl ⟨text, _, _, rfl, heq, by simp only [loadLpFile, hread, heq]⟩

end Solver

end LinearProgram
