import LinearProgram.Model
import LinearProgram.Proofs.Model.Collisions

/-!
# `LinearProgram.Proofs.Model.Occurrence`: the variables that a model registers

A variable occurs in a model if it occurs in the objective, in the term
of a constraint or in a guard. Guards can be guarded themselves, so the
occurrence in a constraint is recursive (`Constraint.Occurs`).
`Model.variableSet` looks at one level of guards only: at the guard of a
constraint, and not at the guard of that guard (`Model.OccursShallow`).

* `Constraint.variableSet_cases` and `Model.variableSet_cases` say all
  that the two functions can do: they collect exactly the variables they
  look at, or report a name that two of these share.
* `Model.registersOccurring_iff`: no variable is forgotten, and no
  collision is missed, exactly where every variable also occurs at one
  level of guards, or where the set is refused anyway.
* `nestedGuard_forgotten`: a guard of a guard, made by `withIndicator`,
  whose variable is not registered.
-/

set_option autoImplicit false

namespace LinearProgram

namespace Constraint

variable {K : Type} [Scalar K]

/-- Whether a variable occurs in the term or in a guard at any depth. -/
def Occurs (v : Variable) : Constraint K → Prop
  | plain row => v ∈ row.term.occurring
  | guarded guard row => v ∈ row.term.occurring ∨ guard.Occurs v

/-- Whether a variable occurs in the term or in the term of the guard. -/
def OccursShallow (c : Constraint K) (v : Variable) : Prop :=
  v ∈ c.term.occurring ∨ ∃ guard, c.guard = some guard ∧ v ∈ guard.term.occurring

theorem occurs_of_mem_term {c : Constraint K} {v : Variable} (h : v ∈ c.term.occurring) :
    c.Occurs v := by
  cases c with
  | plain row => exact h
  | guarded guard row => exact .inl h

/-- What occurs at one level of guards occurs. -/
theorem OccursShallow.occurs {c : Constraint K} {v : Variable} (h : c.OccursShallow v) :
    c.Occurs v := by
  cases c with
  | plain row =>
      rcases h with h | ⟨guard, hguard, _⟩
      · exact h
      · cases hguard
  | guarded guard row =>
      rcases h with h | ⟨guard', hguard, h⟩
      · exact .inl h
      · cases hguard
        exact .inr (occurs_of_mem_term h)

/-- The variables of a constraint are those at one level of guards, or
two of them share a name. -/
theorem variableSet_cases (c : Constraint K) :
    (∃ s, c.variableSet = .ok s ∧ ∀ v, v ∈ s ↔ c.OccursShallow v)
      ∨ ∃ v w, c.variableSet = .error (.nameCollision v.name) ∧ c.OccursShallow v
        ∧ c.OccursShallow w ∧ w ≠ v ∧ w.name = v.name := by
  rcases VariableSet.ofList_cases c.term.occurring with
    ⟨s, heq, hmem⟩ | ⟨v, w, heq, hv, hw, hne, hname⟩
  · cases hguard : c.guard with
    | none =>
        refine .inl ⟨s, ?_, fun v => ?_⟩
        · simp only [variableSet, Term.variableSet, heq, hguard]
        · rw [hmem]
          simp [OccursShallow, hguard]
    | some guard =>
        have hshallow : ∀ v, c.OccursShallow v ↔ v ∈ s ∨ v ∈ guard.term.occurring := by
          intro v
          rw [hmem]
          simp [OccursShallow, hguard]
        rcases s.extend_cases guard.term.occurring with
          ⟨s', hext, hmem'⟩ | ⟨s', v, w, hext, hv, hw, hne, hname⟩
        · refine .inl ⟨s', ?_, fun v => (hmem' v).trans (hshallow v).symm⟩
          simp only [variableSet, Term.variableSet, heq, hguard, hext]
        · refine .inr ⟨v, w, ?_, (hshallow v).mpr (.inr hv), (hshallow w).mpr hw, hne, hname⟩
          simp only [variableSet, Term.variableSet, heq, hguard, hext]
  · refine .inr ⟨v, w, ?_, .inl hv, .inl hw, hne, hname⟩
    simp only [variableSet, Term.variableSet, heq]

/-- The normal form has the variables of the constraint. -/
theorem occurs_normalize {c : Constraint K} {v : Variable} :
    c.normalize.Occurs v ↔ c.Occurs v := by
  cases c with
  | plain row => exact Iff.rfl
  | guarded guard row => exact Iff.rfl

theorem occursShallow_normalize {c : Constraint K} {v : Variable} :
    c.normalize.OccursShallow v ↔ c.OccursShallow v := by
  cases c with
  | plain row => exact Iff.rfl
  | guarded guard row => exact Iff.rfl

end Constraint

namespace Model

/-- Whether a variable occurs in the objective or anywhere in a constraint. -/
def Occurs (m : Model) (v : Variable) : Prop :=
  v ∈ m.objective.term.occurring ∨ ∃ c ∈ m.constraints, c.Occurs v

/-- Whether a variable occurs in the objective, in the term of a
constraint or in the term of a constraint's guard. -/
def OccursShallow (m : Model) (v : Variable) : Prop :=
  v ∈ m.objective.term.occurring ∨ ∃ c ∈ m.constraints, c.OccursShallow v

theorem OccursShallow.occurs {m : Model} {v : Variable} (h : m.OccursShallow v) : m.Occurs v := by
  rcases h with h | ⟨c, hc, h⟩
  · exact .inl h
  · exact .inr ⟨c, hc, h.occurs⟩

/-- A set extended by constraints has the variables these register, or
two of all these variables share a name. -/
theorem extendByConstraints_cases (s : VariableSet) (cs : List (Constraint Float)) :
    (∃ s', extendByConstraints s cs = .ok s'
        ∧ ∀ v, v ∈ s' ↔ v ∈ s ∨ ∃ c ∈ cs, c.OccursShallow v)
      ∨ ∃ v w, extendByConstraints s cs = .error (.nameCollision v.name)
        ∧ (∃ c ∈ cs, c.OccursShallow v) ∧ (w ∈ s ∨ ∃ c ∈ cs, c.OccursShallow w) ∧ w ≠ v
        ∧ w.name = v.name := by
  induction cs generalizing s with
  | nil => exact .inl ⟨s, rfl, by simp⟩
  | cons c rest ih =>
      rcases c.variableSet_cases with ⟨own, hown, hmem⟩ | ⟨v, w, hown, hv, hw, hne, hname⟩
      · have hlist : ∀ v, v ∈ own.toList ↔ c.OccursShallow v := fun v =>
          VariableSet.mem_toList_iff.trans (hmem v)
        rcases s.extend_cases own.toList with
          ⟨s₁, hext, hmem₁⟩ | ⟨s₁, v, w, hext, hv, hw, hne, hname⟩
        · have hstep : extendByConstraints s (c :: rest) = extendByConstraints s₁ rest := by
            simp only [extendByConstraints, hown, hext]
          have hcover : ∀ v, (v ∈ s₁ ∨ ∃ d ∈ rest, d.OccursShallow v)
              ↔ (v ∈ s ∨ ∃ d ∈ c :: rest, d.OccursShallow v) := by
            intro v
            rw [hmem₁, hlist]
            simp [or_assoc]
          rw [hstep]
          rcases ih s₁ with ⟨s', heq, hmem'⟩ | ⟨v, w, heq, ⟨d, hd, hv⟩, hw, hne, hname⟩
          · exact .inl ⟨s', heq, fun v => (hmem' v).trans (hcover v)⟩
          · exact .inr ⟨v, w, heq, ⟨d, List.mem_cons_of_mem _ hd, hv⟩, (hcover w).mp hw, hne,
              hname⟩
        · refine .inr ⟨v, w, ?_, ⟨c, List.mem_cons_self .., (hlist v).mp hv⟩, ?_, hne, hname⟩
          · simp only [extendByConstraints, hown, hext]
          · rcases hw with hw | hw
            · exact .inl hw
            · exact .inr ⟨c, List.mem_cons_self .., (hlist w).mp hw⟩
      · refine .inr ⟨v, w, ?_, ⟨c, List.mem_cons_self .., hv⟩,
          .inr ⟨c, List.mem_cons_self .., hw⟩, hne, hname⟩
        simp only [extendByConstraints, hown]

/-- The variables of a model are those at one level of guards, or two of
these share a name. -/
theorem variableSet_cases (m : Model) :
    (∃ s, m.variableSet = .ok s ∧ ∀ v, v ∈ s ↔ m.OccursShallow v)
      ∨ ∃ v w, m.variableSet = .error (.nameCollision v.name) ∧ m.OccursShallow v
        ∧ m.OccursShallow w ∧ w ≠ v ∧ w.name = v.name := by
  rcases VariableSet.ofList_cases m.objective.term.occurring with
    ⟨s, heq, hmem⟩ | ⟨v, w, heq, hv, hw, hne, hname⟩
  · have hstep : m.variableSet = extendByConstraints s m.constraints := by
      simp only [variableSet, Term.variableSet, heq]
    rw [hstep]
    rcases extendByConstraints_cases s m.constraints with
      ⟨s', heq', hmem'⟩ | ⟨v, w, heq', hv, hw, hne, hname⟩
    · refine .inl ⟨s', heq', fun v => ?_⟩
      rw [hmem', hmem]
      rfl
    · refine .inr ⟨v, w, heq', .inr hv, ?_, hne, hname⟩
      rw [hmem] at hw
      exact hw
  · refine .inr ⟨v, w, ?_, .inl hv, .inl hw, hne, hname⟩
    simp only [variableSet, Term.variableSet, heq]

/-- The members of a model's set are the variables at one level of guards. -/
theorem mem_variableSet_iff {m : Model} {s : VariableSet} (h : m.variableSet = .ok s)
    (v : Variable) : v ∈ s ↔ m.OccursShallow v := by
  rcases m.variableSet_cases with ⟨s', heq, hmem⟩ | ⟨u, w, heq, _⟩
  · rw [h] at heq
    cases heq
    exact hmem v
  · rw [h] at heq
    cases heq

/-- No occurring variable is forgotten, and two occurring variables of
one name are reported. -/
def RegistersOccurring (m : Model) : Prop :=
  (∀ s, m.variableSet = .ok s → ∀ v, m.Occurs v → v ∈ s)
    ∧ ∀ v w, m.Occurs v → m.Occurs w → v ≠ w → v.name = w.name →
      ∃ name, m.variableSet = .error (.nameCollision name)

/-- A model registers what occurs in it exactly if its set is refused or
every variable in the guard of a guard occurs at one level of guards
too. -/
theorem registersOccurring_iff (m : Model) :
    m.RegistersOccurring
      ↔ (∃ e, m.variableSet = .error e) ∨ ∀ v, m.Occurs v → m.OccursShallow v := by
  rcases m.variableSet_cases with ⟨s, heq, hmem⟩ | ⟨u, w, heq, _⟩
  · constructor
    · intro h
      exact .inr fun v hv => (hmem v).mp (h.1 s heq v hv)
    · intro h
      -- The set is not refused, so every occurring variable is in it.
      have hall : ∀ v, m.Occurs v → v ∈ s := by
        rcases h with ⟨e, he⟩ | h
        · rw [heq] at he
          cases he
        · exact fun v hv => (hmem v).mpr (h v hv)
      refine ⟨fun s' heq' v hv => ?_, fun v w hv hw hne hname => ?_⟩
      · rw [heq] at heq'
        cases heq'
        exact hall v hv
      · exact absurd (VariableSet.eq_of_name_eq (hall v hv) (hall w hw) hname) hne
  · constructor
    · intro _
      exact .inl ⟨_, heq⟩
    · intro _
      refine ⟨fun s heq' => ?_, fun _ _ _ _ _ _ => ⟨u.name, heq⟩⟩
      rw [heq] at heq'
      cases heq'

/-- A bound on `x` that counts where `b` is set, which counts where `a`
is set: both guards are accepted, and `a` is not registered. -/
theorem nestedGuard_forgotten :
    ∃ guard c s,
      (Constraint.right (.ofVariable ⟨1, "b"⟩) .equal 1).withIndicator
          ⟨#[.binary, .binary, .free .integer]⟩ (.right (.ofVariable ⟨0, "a"⟩) .equal 1)
        = .ok guard
      ∧ (Constraint.right (.ofVariable ⟨2, "x"⟩) .atMost 3).withIndicator
          ⟨#[.binary, .binary, .free .integer]⟩ guard = .ok c
      ∧ Model.variableSet ⟨.zero, [c]⟩ = .ok s
      ∧ Model.Occurs ⟨.zero, [c]⟩ ⟨0, "a"⟩ ∧ ¬ (⟨0, "a"⟩ : Variable) ∈ s := by
  refine ⟨_, _, _, rfl, rfl, rfl, .inr ⟨_, List.mem_cons_self .., .inr (.inr ?_)⟩, ?_⟩
  · show (⟨0, "a"⟩ : Variable) ∈ Term.occurring _
    decide +kernel
  · rw [VariableSet.mem_iff]
    decide +kernel

end Model

end LinearProgram
