import LinearProgram.Proofs.LpText.Reading.Restoration
import LinearProgram.Proofs.Model.Occurrence

/-!
# `LinearProgram.Proofs.LpText.Reading.RoundTrip`: a model comes back from its text

`Model.IsPortable` says of a model, without mention of its text, what
must hold for the text to be read back: names are neither words for
infinity nor keywords, numbers are finite, and nothing that is written
is negative zero.

* `isReadableModel_of_isPortable`: the text of such a model is taken
  apart line by line and token by token as it was put together.
* `read_write_isImage`: it is read without a problem, as the model up to
  handles, and written again it is the same text.
-/

set_option autoImplicit false

namespace LinearProgram

open LpText (IsPlainName IsReadableBound isKeyword)

/-- Whether a row can be carried over in a text. Its bounds are written
less the constant of its term. -/
structure Row.IsPortable (row : Row Float) : Prop where
  finite : row.term.IsFinite
  varies : row.term.isConstant = false
  bounds : (row.shape.normalize row.term.constant).ForBounds IsReadableBound
  name : ∀ name, row.name = some name → IsPlainName name

/-- Whether a guard can be carried over in a text: it has neither a name
nor a guard of its own, and it is a test of a binary variable. -/
structure Constraint.IsPortableGuard (registry : Registry) (g : Constraint Float) : Prop where
  unguarded : g.guard = none
  unnamed : g.name = none
  indicator : g.isIndicator registry = true
  bound : g.shape ≠ .equal (-0)

/-- Whether a constraint can be carried over in a text. -/
def Constraint.IsPortable (registry : Registry) : Constraint Float → Prop
  | plain row => row.IsPortable
  | guarded g row => g.IsPortableGuard registry ∧ row.IsPortable

/-- Whether a model can be carried over in a text. -/
structure Model.IsPortable (registry : Registry) (m : Model) : Prop where
  built : ∀ c ∈ m.constraints, c.IsBuilt
  name : ∀ v, m.Occurs v → IsPlainName v.name
  keyword : ∀ v, m.Occurs v → isKeyword v.name.toList = false
  valid : ∀ v, m.Occurs v → registry.validate v = .ok ()
  finiteObjective : m.objective.term.IsFinite
  /-- A constant objective is not negative zero. -/
  constantObjective : m.objective.term.isConstant = true → m.objective.term.constant ≠ -0
  constraints : ∀ c ∈ m.constraints, c.IsPortable registry

namespace LpText

/-! ### From portable to readable -/

theorem isReadableTerm_of_isFinite {t : Term Float} (hfinite : t.IsFinite)
    (hname : ∀ v ∈ t.occurring, IsPlainName v.name) (hdistinct : t.HasDistinctNames) :
    IsReadableTerm t := by
  refine ⟨fun v c hget => ⟨hname v (Term.mem_occurring.mpr ⟨c, hget⟩), ?_, t.nonzero v c hget⟩,
    hdistinct, fun _ => Binary64.isNaN_of_isFinite hfinite.2⟩
  exact Binary64.isNaN_of_isFinite (hfinite.1 (v, c) (OrderedMap.mem_toList_iff.mpr hget))

theorem isReadableShape_normalize {shape : Shape Float} (hbuilt : shape.IsBuilt) {offset : Float}
    (hbounds : (shape.normalize offset).ForBounds IsReadableBound) :
    IsReadableShape (shape.normalize offset) := by
  have hnormal := hbuilt.normalize offset
  cases shape with
  | left bound relation => exact ⟨hnormal, hbounds⟩
  | right relation bound => exact ⟨hnormal, hbounds⟩
  | equal bound => exact hbounds
  | range lower l r upper => exact ⟨hnormal, hbounds⟩

/-- The normal form of a portable row can be read. -/
theorem isReadableRow_normalize {row : Row Float} (h : row.IsPortable)
    (hbuilt : row.shape.IsBuilt) (hname : ∀ v ∈ row.term.occurring, IsPlainName v.name)
    (hdistinct : row.term.HasDistinctNames) :
    IsReadableRow ⟨row.shape.normalize row.term.constant, row.term.setConstant 0, row.name⟩ := by
  have hzero : (0 : Float).isFinite = true := by decide
  have hnone : ((0 : Float) == 0) = true := by decide
  have hconstant : (row.term.setConstant 0).isConstant = false := h.varies
  refine ⟨isReadableShape_normalize hbuilt h.bounds, ?_, hnone, fun htrue => ?_, h.name⟩
  · exact isReadableTerm_of_isFinite ⟨h.finite.1, hzero⟩ hname hdistinct
  · rw [hconstant] at htrue
    cases htrue

/-- A term that is one variable and nothing else can be read. -/
theorem isReadableTerm_of_loneVariable? {t : Term Float} {v : Variable}
    (h : Constraint.loneVariable? t = some v) (hname : IsPlainName v.name) : IsReadableTerm t := by
  have hlist := (loneVariable?_eq_some h).1
  have hoccurring := occurring_of_loneVariable? h
  refine ⟨fun w c hget => ?_, fun w hw w' hw' _ => ?_, fun hconstant => ?_⟩
  · have hmem := OrderedMap.mem_toList_iff.mpr hget
    rw [hlist, List.mem_singleton] at hmem
    cases hmem
    exact ⟨hname, (by decide : (1 : Float).isNaN = false), (by decide : ((1 : Float) == 0) = false)⟩
  · rw [hoccurring, List.mem_singleton] at hw hw'
    rw [hw, hw']
  · rw [Term.isConstant, OrderedMap.isEmpty, hlist] at hconstant
    cases hconstant

/-- A portable guard can be read as it stands: it is an equation of a
variable with 0 or 1. -/
theorem isReadableGuard_of_isPortable {registry : Registry} {g : Constraint Float}
    (h : g.IsPortableGuard registry) (hname : ∀ v, g.Occurs v → IsPlainName v.name) :
    IsReadableGuard registry g := by
  obtain ⟨value, v, hvalue, hv, _⟩ := exists_of_isIndicator h.indicator
  obtain ⟨hshape, _, hnumber⟩ := of_switchValue? hvalue
  obtain ⟨hlist, hzero⟩ := loneVariable?_eq_some hv
  have hbound := h.bound
  cases g with
  | guarded guard row => exact absurd h.unguarded nofun
  | plain row =>
      have hv : Constraint.loneVariable? row.term = some v := hv
      have hlist : row.term.coefficients.toList = [(v, 1)] := hlist
      have hshape : row.shape = .equal value := hshape
      have hvaries : ¬ row.term.isConstant = true := by
        rw [Term.isConstant, OrderedMap.isEmpty, hlist]
        exact Bool.false_ne_true
      have hoccurs : v ∈ row.term.occurring := by
        rw [occurring_of_loneVariable? hv]
        exact List.mem_singleton_self v
      refine ⟨⟨row, rfl, h.unnamed, ?_, ?_, hzero, fun hconstant => absurd hconstant hvaries, ?_⟩,
        h.indicator⟩
      · rw [hshape]
        exact ⟨hnumber, fun heq => hbound (hshape.trans (congrArg Shape.equal heq))⟩
      · exact isReadableTerm_of_loneVariable? hv (hname v hoccurs)
      · intro name hsome
        rw [show row.name = none from h.unnamed] at hsome
        cases hsome

variable {registry : Registry} {m : Model} {vars : VariableSet}

/-- The guards of a portable model are not guarded, so that its set has
every variable that occurs. -/
theorem mem_iff_occurs (hvars : m.variableSet = .ok vars) (h : m.IsPortable registry)
    (v : Variable) : v ∈ vars ↔ m.Occurs v := by
  rw [Model.mem_variableSet_iff hvars]
  refine ⟨Model.OccursShallow.occurs, fun hv => ?_⟩
  rcases hv with hv | ⟨c, hc, hv⟩
  · exact .inl hv
  · refine .inr ⟨c, hc, ?_⟩
    have hportable := h.constraints c hc
    cases c with
    | plain row => exact .inl hv
    | guarded g row =>
        rcases hv with hv | hv
        · exact .inl hv
        · refine .inr ⟨g, rfl, ?_⟩
          cases g with
          | plain grow => exact hv
          | guarded guard grow => exact absurd hportable.1.unguarded nofun

theorem isReadableConstraint_normalize (hvars : m.variableSet = .ok vars)
    (h : m.IsPortable registry) {c : Constraint Float} (hc : c ∈ m.constraints) :
    IsReadableConstraint registry c.normalize := by
  have hname : ∀ v, c.Occurs v → IsPlainName v.name := fun v hv => h.name v (.inr ⟨c, hc, hv⟩)
  have hdistinct : c.term.HasDistinctNames := fun v hv w hw =>
    VariableSet.eq_of_name_eq
      ((mem_iff_occurs hvars h v).mpr (.inr ⟨c, hc, Constraint.occurs_of_mem_term hv⟩))
      ((mem_iff_occurs hvars h w).mpr (.inr ⟨c, hc, Constraint.occurs_of_mem_term hw⟩))
  have hportable := h.constraints c hc
  have hbuilt := (h.built c hc).shape
  cases c with
  | plain row => exact isReadableRow_normalize hportable hbuilt hname hdistinct
  | guarded g row =>
      exact ⟨isReadableGuard_of_isPortable hportable.1 fun v hv => hname v (.inr hv),
        isReadableRow_normalize hportable.2 hbuilt (fun v hv => hname v (.inl hv)) hdistinct⟩

/-- The text of a portable model can be read back. -/
theorem isReadableModel_of_isPortable (hvars : m.variableSet = .ok vars)
    (h : m.IsPortable registry) : IsReadableModel registry m vars where
  objective := isReadableTerm_of_isFinite h.finiteObjective (fun v hv => h.name v (.inl hv))
    fun v hv w hw => VariableSet.eq_of_name_eq ((mem_iff_occurs hvars h v).mpr (.inl hv))
      ((mem_iff_occurs hvars h w).mpr (.inl hw))
  objectiveConstant := h.constantObjective
  objectiveWord v hv _ := h.keyword v (.inl hv)
  constraints _ := isReadableConstraint_normalize hvars h
  occurring v hv := (mem_iff_occurs hvars h v).mpr hv
  valid v hv := h.valid v ((mem_iff_occurs hvars h v).mp hv)
  name v hv := (h.name v ((mem_iff_occurs hvars h v).mp hv)).1
  boundsName v hv _ := h.name v ((mem_iff_occurs hvars h v).mp hv)
  keyword v hv _ := h.keyword v ((mem_iff_occurs hvars h v).mp hv)

/-! ### The round trip -/

/-- A portable model comes back from its text. No problem is reported,
whatever variables there are already; a bijection between the variables
that keeps names takes the model to the one that was read, with the same
kinds and, as numbers, the same bounds; and the model that was read is
written in the same text again. -/
theorem read_write_isImage (hvars : m.variableSet = .ok vars) (h : m.IsPortable registry)
    (other : Registry) :
    ∃ doc final, read other (write registry m vars) = (doc, final) ∧ doc.problems = []
      ∧ (∃ f, IsRenaming f (· ∈ vars) (· ∈ doc.variableSet) ∧ m.IsImage f doc.model
        ∧ ∀ v ∈ vars, (registry.attributes v).SameDomain (final.attributes (f v)))
      ∧ write final doc.model doc.variableSet = write registry m vars := by
  have hreadable := isReadableModel_of_isPortable hvars h
  obtain ⟨doc, final, hread, hd⟩ := read_write hreadable other
  exact ⟨doc, final, hread, hd.problems,
    hd.exists_renaming hreadable (Binary64.isNaN_of_isFinite h.finiteObjective.2)
      fun v hv => (mem_iff_occurs hvars h v).mp hv,
    hd.write_eq hreadable⟩

/-- The model that makes `x` large and bounds it by 3 where `b` is set. -/
def switchedCapacity : Model :=
  ⟨⟨.maximize, .ofVariable ⟨1, "x"⟩⟩,
    [.guarded (.right (.ofVariable ⟨0, "b"⟩) .equal 1)
      ⟨.right .atMost 3, .ofVariable ⟨1, "x"⟩, some "capacity"⟩]⟩

theorem switchedCapacity_isPortable :
    switchedCapacity.IsPortable ⟨#[.binary, .bounded .integer 0 10]⟩ := by
  have hfinite : ∀ w : Variable, (Term.ofVariable (K := Float) w).IsFinite := by
    intro w
    refine ⟨fun p hp => ?_, show (0 : Float).isFinite = true by decide⟩
    rw [List.mem_singleton.mp hp]
    show (1 : Float).isFinite = true
    decide
  have hoccurs : ∀ v, switchedCapacity.Occurs v → v = ⟨1, "x"⟩ ∨ v = ⟨0, "b"⟩ := by
    rintro v (hv | ⟨c, hc, hv⟩)
    · exact .inl (List.mem_singleton.mp hv)
    · rw [List.mem_singleton.mp hc] at hv
      exact hv.imp List.mem_singleton.mp List.mem_singleton.mp
  have hone : Constraint.switchValue? (.equal (1 : Float)) = some 1 := by decide +kernel
  have hlone : Constraint.loneVariable? (Term.ofVariable (K := Float) ⟨0, "b"⟩)
      = some ⟨0, "b"⟩ := by decide +kernel
  refine ⟨fun c hc => ?_, fun v hv => ?_, fun v hv => ?_, fun v hv => ?_, hfinite _, nofun,
    fun c hc => ?_⟩
  · rw [List.mem_singleton.mp hc]
    exact ⟨trivial, ⟨⟨1, hone⟩, _, hlone⟩, nofun⟩
  · rcases hoccurs v hv with rfl | rfl <;> exact ⟨by decide, by decide⟩
  · rcases hoccurs v hv with rfl | rfl <;> decide
  · rcases hoccurs v hv with rfl | rfl <;> rfl
  · rw [List.mem_singleton.mp hc]
    refine ⟨⟨rfl, rfl, by decide +kernel, ?_⟩, hfinite _, rfl, ?_, fun name hname => ?_⟩
    · show Shape.equal (1 : Float) ≠ .equal (-0)
      rintro heq
      exact absurd (Shape.equal.inj heq) (by decide)
    · show IsReadableBound (3 - 0)
      exact ⟨by decide, by decide⟩
    · cases hname
      exact ⟨by decide, by decide⟩

/-- Its text is read into a registry that has a variable already. -/
theorem switchedCapacity_roundTrip :
    ∃ vars, switchedCapacity.variableSet = .ok vars ∧ ∃ doc final,
      read ⟨#[.binary]⟩ (write ⟨#[.binary, .bounded .integer 0 10]⟩ switchedCapacity vars)
        = (doc, final) ∧ doc.problems = []
      ∧ (∃ f, IsRenaming f (· ∈ vars) (· ∈ doc.variableSet)
        ∧ switchedCapacity.IsImage f doc.model
        ∧ ∀ v ∈ vars, (Registry.attributes ⟨#[.binary, .bounded .integer 0 10]⟩ v).SameDomain
            (final.attributes (f v)))
      ∧ write final doc.model doc.variableSet
        = write ⟨#[.binary, .bounded .integer 0 10]⟩ switchedCapacity vars :=
  ⟨_, rfl, read_write_isImage rfl switchedCapacity_isPortable _⟩

end LpText

end LinearProgram
