import LinearProgram.Proofs.LpText.Expressible.Models
import LinearProgram.Proofs.Solver.AlreadySolved
import LinearProgram.Proofs.Solver.UnambiguousNames

/-!
# `LinearProgram.Proofs.Solver.Expressible`: which models a solver can show

A solver takes every constraint that the constructors make, and shows
its model as text. `Constraint.IsConstructed` are these constraints, in
any combination of constructors, and `Operation.Assembles` are the
operations that bring no others into the model.

`run_shows_iff` is about the text of a model that was assembled like
this: with ordinary names and finite numbers, it can be read back if and
only if every constraint is expressible. `unsayable_shown` shows
that the constructors and the solver let the others pass.
-/

set_option autoImplicit false

namespace LinearProgram

namespace Constraint

/-- What the constructors of constraints make, with any registry at each
step. -/
inductive IsConstructed : Constraint Float → Prop
  | left (bound : Float) (relation : Relation) (t : Term Float) :
    IsConstructed (.left bound relation t)
  | right (t : Term Float) (relation : Relation) (bound : Float) :
    IsConstructed (.right t relation bound)
  | range {lower upper : Float} {l r : Relation} {t : Term Float} {c : Constraint Float}
    (h : Constraint.range lower l t r upper = .ok c) : IsConstructed c
  | between (t : Term Float) (lower upper : Float) : IsConstructed (.between t lower upper)
  | relate {lhs rhs : Term Float} {relation : Relation} {c : Constraint Float}
    (h : Constraint.relate lhs relation rhs = .ok c) : IsConstructed c
  | chain {c c' : Constraint Float} (hc : IsConstructed c) {relation : Relation} {upper : Float}
    (h : c.chain relation upper = .ok c') : IsConstructed c'
  | chainLeft {c c' : Constraint Float} (hc : IsConstructed c) {relation : Relation}
    {lower : Float} (h : Constraint.chainLeft lower relation c = .ok c') : IsConstructed c'
  | named {c : Constraint Float} (hc : IsConstructed c) (name : String) :
    IsConstructed (c.named name)
  | normalize {c : Constraint Float} (hc : IsConstructed c) : IsConstructed c.normalize
  | withIndicator (registry : Registry) {c guard c' : Constraint Float} (hc : IsConstructed c)
    (hguard : IsConstructed guard) (h : c.withIndicator registry guard = .ok c') :
    IsConstructed c'

theorem IsConstructed.isBuilt {c : Constraint Float} (h : c.IsConstructed) : c.IsBuilt := by
  induction h with
  | left bound relation t => exact isBuilt_left bound relation t
  | right t relation bound => exact isBuilt_right t relation bound
  | range h => exact isBuilt_of_range h
  | between t lower upper => exact isBuilt_between t lower upper
  | relate h => exact isBuilt_of_relate h
  | chain _ h ih => exact ih.chain h
  | chainLeft _ h ih => exact ih.chainLeft h
  | named _ name ih => exact ih.named name
  | normalize _ ih => exact ih.normalize
  | withIndicator _ _ _ h ih ihguard => exact ih.withIndicator ihguard h

end Constraint

variable {σ δ : Type}

/-- Whether an operation brings no constraints into a model but those
that the constructors make. -/
def Operation.Assembles : Operation σ δ → Prop
  | .addConstraint c => c.IsConstructed
  | .addConstraints cs => ∀ c ∈ cs, c.IsConstructed
  | .loadText _ | .loadFile _ => False
  | _ => True

/-- Whether all constraints of a solver come from the constructors. -/
def Solver.IsAssembled (s : Solver σ) : Prop := ∀ c ∈ s.model.constraints, c.IsConstructed

namespace Solver

variable {s : Solver σ}

theorem IsAssembled.addConstraint (h : s.IsAssembled) {c : Constraint Float}
    (hc : c.IsConstructed) : (Solver.addConstraint c s).2.IsAssembled := by
  rcases addConstraint_cases c s with ⟨all, _, heq⟩ | ⟨e, _, heq⟩ <;> rw [heq]
  · intro d hd
    rcases List.mem_append.mp hd with hd | hd
    · exact h d hd
    · rw [List.mem_singleton.mp hd]
      exact hc
  · exact h

theorem IsAssembled.addConstraints (h : s.IsAssembled) {cs : List (Constraint Float)}
    (hcs : ∀ c ∈ cs, c.IsConstructed) : (Solver.addConstraints cs s).2.IsAssembled := by
  induction cs generalizing s with
  | nil => exact h
  | cons c rest ih =>
      have hstep := h.addConstraint (hcs c (List.mem_cons_self ..))
      rw [Solver.addConstraints, Action.each_cons_apply]
      rcases addConstraint_cases c s with ⟨all, _, heq⟩ | ⟨e, _, heq⟩ <;> rw [heq] at hstep ⊢
      · exact ih hstep fun d hd => hcs d (List.mem_cons_of_mem _ hd)
      · exact hstep

theorem IsAssembled.setObjective (h : s.IsAssembled) (o : Objective) :
    (Solver.setObjective o s).2.IsAssembled := by
  rcases setObjective_cases o s with ⟨_, heq⟩ | ⟨e, _, heq⟩ <;> rw [heq] <;> exact h

theorem IsAssembled.setGap (h : s.IsAssembled) (knob : Knob) (gap : Float)
    (f : Config → Config) : (Solver.setGap knob gap f s).2.IsAssembled := by
  unfold Solver.setGap
  split <;> exact h

theorem IsAssembled.setStartValues (h : s.IsAssembled) (registry : Registry)
    (values : Assignment) : (Solver.setStartValues registry values s).2.IsAssembled := by
  unfold Solver.setStartValues
  split <;> exact h

theorem IsAssembled.solve {registry : Registry} {s' : Solver σ} {files files' : δ}
    {result : Except SolverError Status} (h : s.IsAssembled)
    (houtcome : SolveOutcome registry s files result s' files') : s'.IsAssembled := by
  cases houtcome with
  | unchanged clean => exact h
  | refused dirty cause => exact h
  | failed dirty prepared cause => exact h
  | solved dirty prepared => exact h

end Solver

namespace Session

variable [Storage δ]

/-- No assembling operation brings in another constraint. -/
theorem isAssembled_perform {w : Session σ δ} (h : w.solver.IsAssembled) {op : Operation σ δ}
    (hop : op.Assembles) : (perform op w).2.solver.IsAssembled := by
  cases op with
  | configure f => exact h
  | setRelativeGap gap =>
      rw [perform, onSolver_snd]
      exact h.setGap _ gap _
  | setAbsoluteGap gap =>
      rw [perform, onSolver_snd]
      exact h.setGap _ gap _
  | resetGaps => exact h
  | setEngine engine => exact h
  | setObjective o =>
      rw [perform, onSolver_snd]
      exact h.setObjective o
  | addConstraint c =>
      rw [perform, onSolver_snd]
      exact h.addConstraint hop
  | addConstraints cs =>
      rw [perform, onSolver_snd]
      exact h.addConstraints hop
  | setStartValues values =>
      rw [perform, onSolver_snd]
      exact h.setStartValues w.registry values
  | reset => exact fun c hc => absurd hc List.not_mem_nil
  | loadText text => cases hop
  | loadFile path => cases hop
  | writeFile path =>
      obtain ⟨files, heq⟩ := perform_writeFile_snd path w
      rw [heq]
      exact h
  | solve times =>
      obtain ⟨result, solver, files, houtcome, heq⟩ := perform_solve times w
      rw [heq]
      exact h.solve houtcome
  | changeVariable op =>
      obtain ⟨registry, heq⟩ := perform_changeVariable_snd op w
      rw [heq]
      exact h
  | changeFiles f => exact h

theorem isAssembled_run {w : Session σ δ} (h : w.solver.IsAssembled) {ops : List (Operation σ δ)}
    (hops : ∀ op ∈ ops, op.Assembles) : (run ops w).solver.IsAssembled := by
  induction ops generalizing w with
  | nil => exact h
  | cons op ops ih =>
      exact ih (isAssembled_perform h (hops op (List.mem_cons_self ..))) fun op' hop' =>
        hops op' (List.mem_cons_of_mem _ hop')

/-- A model that was assembled from what the constructors make is shown
as text. If its names are ordinary and its numbers finite, the text is
read without a problem, as just as many constraints, if and only if
every constraint is expressible. -/
theorem run_shows_iff (engine : Engine σ) (config : Config) (registry : Registry) (files : δ)
    {ops : List (Operation σ δ)} (hops : ∀ op ∈ ops, op.Assembles) :
    let w := run ops (start engine config registry files)
    w.solver.model.IsLegible w.registry →
      ∃ text, w.solver.lpText w.registry = .ok text ∧ ∀ other,
        ((LpText.read other text).1.problems = []
            ∧ (LpText.read other text).1.model.constraints.length
              = w.solver.model.constraints.length)
          ↔ ∀ c ∈ w.solver.model.constraints, c.IsExpressible := by
  intro w h
  have hstart : (start engine config registry files).solver.IsAssembled :=
    fun c hc => absurd hc List.not_mem_nil
  have hassembled : w.solver.IsAssembled := isAssembled_run hstart hops
  obtain ⟨vars, hvars⟩ :=
    (isInStep_run (isInStep_start engine config registry files) ops).exists_variableSet
  refine ⟨LpText.write w.registry w.solver.model vars, ?_, fun other => ?_⟩
  · rw [Solver.lpText, hvars]
    rfl
  · exact LpText.read_write_iff (fun c hc => (hassembled c hc).isBuilt) hvars h other

/-- The guard that `b` is 1. -/
def switchOn : Constraint Float := .right (.ofVariable ⟨0, "b"⟩) .equal 1

/-- The constraint that `x` is at most 3. -/
def capped : Constraint Float := .right (.ofVariable ⟨1, "x"⟩) .atMost 3

/-- A model that caps `x` where `b` is set. The guard has a name, and the
constraint has none. -/
def namedSwitch : List (Operation Unit FileTree) :=
  [.changeVariable (.declare "b" .binary), .changeVariable (.create "x" .integer 0 10),
    .setObjective ⟨.maximize, .ofVariable ⟨1, "x"⟩⟩,
    .addConstraint (.guarded (switchOn.named "switch") capped.row)]

theorem isConstructed_switchOn : switchOn.IsConstructed := .right _ .equal 1

theorem isConstructed_capped : capped.IsConstructed := .right _ .atMost 3

theorem assembles_namedSwitch : ∀ op ∈ namedSwitch, op.Assembles := by
  intro op hop
  simp only [namedSwitch, List.mem_cons, List.not_mem_nil, or_false] at hop
  rcases hop with rfl | rfl | rfl | rfl
  · trivial
  · trivial
  · trivial
  · refine .withIndicator ⟨#[.binary]⟩ isConstructed_capped
      (isConstructed_switchOn.named "switch") (if_pos ?_)
    decide +kernel

theorem isLegible_namedSwitch :
    (played namedSwitch).solver.model.IsLegible (played namedSwitch).registry := by
  have hmodel : (played namedSwitch).solver.model
      = ⟨⟨.maximize, .ofVariable ⟨1, "x"⟩⟩,
        [.guarded (switchOn.named "switch") capped.row]⟩ := rfl
  have hregistry : (played namedSwitch).registry = ⟨#[.binary, .bounded .integer 0 10]⟩ := rfl
  rw [hmodel, hregistry]
  have hfinite : (Term.ofVariable (K := Float) ⟨1, "x"⟩).IsFinite := by
    refine ⟨fun p hp => ?_, show (0 : Float).isFinite = true by decide⟩
    rw [List.mem_singleton.mp hp]
    show (1 : Float).isFinite = true
    decide
  have hoccurs : ∀ v, Model.Occurs ⟨⟨.maximize, .ofVariable ⟨1, "x"⟩⟩,
      [.guarded (switchOn.named "switch") capped.row]⟩ v → v = ⟨1, "x"⟩ ∨ v = ⟨0, "b"⟩ := by
    rintro v (hv | ⟨c, hc, hv⟩)
    · exact .inl (List.mem_singleton.mp hv)
    · rw [List.mem_singleton.mp hc] at hv
      exact hv.imp List.mem_singleton.mp List.mem_singleton.mp
  refine ⟨fun v hv => ?_, fun v hv => ?_, List.forall_mem_singleton.mpr ?_, fun v hv => ?_,
    List.forall_mem_singleton.mpr ?_, hfinite, List.forall_mem_singleton.mpr hfinite,
    List.forall_mem_singleton.mpr ?_⟩
  · rcases hoccurs v hv with rfl | rfl <;> exact ⟨by decide, by decide⟩
  · rcases hoccurs v hv with rfl | rfl <;> decide
  · exact List.forall_mem_singleton.mpr (show LpText.isName "switch".toList = true by decide)
  · rcases hoccurs v hv with rfl | rfl <;> rfl
  · rintro guard ⟨⟩
    decide +kernel
  · show (3 - 0 : Float).isFinite = true
    decide

/-- Its text begins with the name of the guard, and is read as one
constraint. -/
theorem namedSwitch_shown :
    ∃ text, (played namedSwitch).solver.lpText (played namedSwitch).registry = .ok text
      ∧ ∀ other, (LpText.read other text).1.problems = []
        ∧ (LpText.read other text).1.model.constraints.length = 1 := by
  obtain ⟨text, htext, hread⟩ := run_shows_iff instant .initial ∅ (∅ : FileTree)
    assembles_namedSwitch isLegible_namedSwitch
  refine ⟨text, htext, fun other => (hread other).mpr fun c hc => ?_⟩
  rw [List.mem_singleton.mp hc]
  refine ⟨nofun, Nat.le_refl 1, Nat.le_refl 1, fun name hname => ?_⟩
  rw [List.mem_singleton.mp hname]
  exact ⟨by decide, by decide⟩

/-- Constraints that the constructors make and that no statement says:
a constant below a bound, a guard with a guard, a guard with a name
behind another name, and a name that is read as a number. -/
def unsayable : List (Constraint Float) :=
  [.right (.ofConstant 0) .atMost 3,
    .guarded (.guarded (.right (.ofVariable ⟨2, "a"⟩) .equal 1) switchOn.row) capped.row,
    .guarded (switchOn.named "g") (capped.named "c").row,
    capped.named "inf"]

/-- The variables of these constraints, and one of them. -/
def withConstraint (c : Constraint Float) : List (Operation Unit FileTree) :=
  [.changeVariable (.declare "b" .binary), .changeVariable (.create "x" .integer 0 10),
    .changeVariable (.declare "a" .binary), .addConstraint c]

theorem isConstructed_unsayable : ∀ c ∈ unsayable, c.IsConstructed := by
  have hguard : ∀ {c g : Constraint Float}, c.IsConstructed → g.IsConstructed →
      g.isIndicator ⟨#[.binary, .free .real, .binary]⟩ = true →
        (Constraint.guarded g c.row).IsConstructed :=
    fun hc hg hindicator => .withIndicator _ hc hg (if_pos hindicator)
  have hinner : (Constraint.guarded (.right (.ofVariable ⟨2, "a"⟩) .equal 1)
      switchOn.row).IsConstructed :=
    hguard isConstructed_switchOn (.right _ .equal 1) (by decide +kernel)
  intro c hc
  simp only [unsayable, List.mem_cons, List.not_mem_nil, or_false] at hc
  rcases hc with rfl | rfl | rfl | rfl
  · exact .right _ .atMost 3
  · exact hguard isConstructed_capped hinner (by decide +kernel)
  · exact hguard (isConstructed_capped.named "c") (isConstructed_switchOn.named "g")
      (by decide +kernel)
  · exact isConstructed_capped.named "inf"

theorem model_withConstraint : ∀ c ∈ unsayable,
    (played (withConstraint c)).solver.model = ⟨⟨.minimize, .ofConstant 0⟩, [c]⟩
      ∧ (played (withConstraint c)).registry
        = ⟨#[.binary, .bounded .integer 0 10, .binary]⟩ := by
  intro c hc
  simp only [unsayable, List.mem_cons, List.not_mem_nil, or_false] at hc
  rcases hc with rfl | rfl | rfl | rfl <;> exact ⟨rfl, rfl⟩

theorem mem_of_occurs_unsayable : ∀ c ∈ unsayable, ∀ v, c.Occurs v →
    v ∈ [(⟨0, "b"⟩ : Variable), ⟨1, "x"⟩, ⟨2, "a"⟩] := by
  intro c hc v hv
  simp only [unsayable, List.mem_cons, List.not_mem_nil, or_false] at hc
  rcases hc with rfl | rfl | rfl | rfl
  · exact absurd hv List.not_mem_nil
  · rcases hv with hv | hv | hv <;> rw [List.mem_singleton.mp hv] <;> decide
  · rcases hv with hv | hv <;> rw [List.mem_singleton.mp hv] <;> decide
  · rw [List.mem_singleton.mp hv]
    decide

/-- Names and numbers are not what is wrong with them. -/
theorem isLegible_withConstraint : ∀ c ∈ unsayable,
    (played (withConstraint c)).solver.model.IsLegible (played (withConstraint c)).registry := by
  intro c hc
  obtain ⟨hmodel, hregistry⟩ := model_withConstraint c hc
  rw [hmodel, hregistry]
  have hoccurs : ∀ v, Model.Occurs ⟨⟨.minimize, .ofConstant 0⟩, [c]⟩ v →
      v ∈ [(⟨0, "b"⟩ : Variable), ⟨1, "x"⟩, ⟨2, "a"⟩] := by
    rintro v (hv | ⟨d, hd, hv⟩)
    · exact absurd hv List.not_mem_nil
    · rw [List.mem_singleton.mp hd] at hv
      exact mem_of_occurs_unsayable c hc v hv
  have hnames : ∀ v ∈ [(⟨0, "b"⟩ : Variable), ⟨1, "x"⟩, ⟨2, "a"⟩],
      LpText.IsPlainName v.name ∧ LpText.isKeyword v.name.toList = false := by
    unfold LpText.IsPlainName
    decide +kernel
  have hvalid : ∀ v ∈ [(⟨0, "b"⟩ : Variable), ⟨1, "x"⟩, ⟨2, "a"⟩],
      Registry.validate ⟨#[.binary, .bounded .integer 0 10, .binary]⟩ v = .ok () := by
    simp only [List.forall_mem_cons]
    exact ⟨rfl, rfl, rfl, nofun⟩
  have hconstraint : ∀ c ∈ unsayable, (∀ name ∈ c.names, LpText.isName name.toList = true)
      ∧ (∀ guard ∈ c.guard,
        guard.isIndicator ⟨#[.binary, .bounded .integer 0 10, .binary]⟩ = true)
      ∧ ((∀ p ∈ c.term.coefficients.toList, p.2.isFinite = true)
        ∧ c.term.constant.isFinite = true)
      ∧ (c.shape.normalize c.term.constant).ForBounds fun x => x.isFinite = true := by
    decide +kernel
  obtain ⟨hlabel, hindicator, hfinite, hbounds⟩ := hconstraint c hc
  have hobjective : (Term.ofConstant (0 : Float)).IsFinite :=
    ⟨fun p hp => absurd hp List.not_mem_nil, show (0 : Float).isFinite = true by decide⟩
  exact ⟨fun v hv => (hnames v (hoccurs v hv)).1, fun v hv => (hnames v (hoccurs v hv)).2,
    List.forall_mem_singleton.mpr hlabel, fun v hv => hvalid v (hoccurs v hv),
    List.forall_mem_singleton.mpr hindicator, hobjective, List.forall_mem_singleton.mpr hfinite,
    List.forall_mem_singleton.mpr hbounds⟩

/-- Whether a constraint comes from the constructors, a solver takes it
into a legible model, and the model is shown as a text with a statement
that cannot be read. -/
def IsShownUnreadably (c : Constraint Float) : Prop :=
  c.IsConstructed
    ∧ (played (withConstraint c)).solver.model.constraints.length = 1
    ∧ (played (withConstraint c)).solver.model.IsLegible (played (withConstraint c)).registry
    ∧ ∃ text, (played (withConstraint c)).solver.lpText (played (withConstraint c)).registry
        = .ok text ∧ (LpText.read ∅ text).1.problems ≠ []

theorem unsayable_shown : unsayable.Forall IsShownUnreadably := by
  have hproblems : ∀ c ∈ unsayable,
      ((played (withConstraint c)).solver.lpText (played (withConstraint c)).registry).toOption.map
        (fun text => (LpText.read ∅ text).1.problems.length) = some 1 := by
    decide +kernel
  refine List.forall_iff_forall_mem.mpr fun c hc => ⟨isConstructed_unsayable c hc, ?_,
    isLegible_withConstraint c hc, ?_⟩
  · rw [(model_withConstraint c hc).1]
    rfl
  have hone := hproblems c hc
  cases htext : (played (withConstraint c)).solver.lpText (played (withConstraint c)).registry with
  | error e =>
      rw [htext] at hone
      cases hone
  | ok text =>
      rw [htext] at hone
      refine ⟨text, rfl, fun hnone => ?_⟩
      rw [Except.toOption, Option.map_some, hnone] at hone
      cases hone

end Session

end LinearProgram
