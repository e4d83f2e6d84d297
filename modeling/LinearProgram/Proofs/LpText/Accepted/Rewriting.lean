import LinearProgram.Proofs.LpText.Accepted.Documents

/-!
# `LinearProgram.Proofs.LpText.Accepted.Rewriting`: writing what was read

What has been read can be written, and the text that is written should
say the same when it is read in turn. `write_read_stable` shows that it
does for every text that is read without a problem, if the document is
as `Document.IsRewritable` asks.

What is asked there cannot be dropped: `unstable_of_keyword` and its
neighbours give texts that are read without a problem, and written as
texts that are not, or that say something else.
-/

set_option autoImplicit false

namespace LinearProgram.LpText

open Decimal (plain)

variable {registry : Registry} {m : Model} {vars : VariableSet}

/-! ### Models of one text -/

/-- Whether a constraint can be read depends on the kinds of its own
variables only. -/
theorem IsReadableConstraint.congr {registry' : Registry} {c : Constraint Float}
    (h : IsReadableConstraint registry c)
    (hsame : ∀ v, c.Occurs v → registry'.attributes v = registry.attributes v) :
    IsReadableConstraint registry' c := by
  cases c with
  | plain row => exact h
  | guarded g row =>
      obtain ⟨hguard, hrow⟩ := h
      obtain ⟨value, v, hvalue, hv, hkind⟩ := exists_of_isIndicator hguard.indicator
      have hoccurs : v ∈ g.term.occurring := by
        rw [occurring_of_loneVariable? hv]
        exact List.mem_singleton_self v
      rw [← hsame v (.inr (Constraint.occurs_of_mem_term hoccurs))] at hkind
      exact ⟨⟨hguard.plain, isIndicator_of_parts hvalue hv hkind⟩, hrow⟩

namespace IsReadableModel

/-- A readable objective may take the place of another one. -/
theorem withObjective (h : IsReadableModel registry m vars) {o : Objective}
    (ho : IsReadableTerm o.term) (hconstant : o.term.isConstant = true → o.term.constant ≠ -0)
    (hword : ∀ v ∈ o.term.occurring, isKeyword v.name.toList = false)
    (hoccurs : ∀ v ∈ o.term.occurring, v ∈ vars) :
    IsReadableModel registry ⟨o, m.constraints⟩ vars :=
  ⟨ho, hconstant, fun v hv _ => hword v hv, h.constraints,
    fun v hv => hv.elim (hoccurs v) fun hc => h.occurring v (.inr hc), h.valid, h.name,
    h.boundsName, h.keyword⟩

/-- One more real variable above zero is not seen in a text. -/
theorem withVariable (h : IsReadableModel registry m vars) (hrange : ∀ v ∈ vars, v.id < registry.size)
    {name : String} (hname : IsPlainName name) (hnew : vars.get? name = none) :
    ∃ w registry' vars', w.name = name ∧ w ∈ vars' ∧ IsReadableModel registry' m vars'
      ∧ ∀ m', write registry' m' vars' = write registry m' vars := by
  have hcreated : ((registry.declare name (.bounded .real 0 Binary64.infinity)).2.attributes
      ⟨registry.size, name⟩) = .bounded .real 0 Binary64.infinity := by
    rw [Registry.attributes_declare, if_pos rfl]
  have hsame : ∀ v ∈ vars, (registry.declare name
      (.bounded .real 0 Binary64.infinity)).2.attributes v = registry.attributes v := by
    intro v hv
    rw [Registry.attributes_declare, if_neg (Nat.ne_of_lt (hrange v hv))]
  generalize (registry.declare name (.bounded .real 0 Binary64.infinity)).2 = registry' at *
  have hmem := VariableSet.mem_put (v := ⟨registry.size, name⟩) hnew
  have hunbounded : boundsWords? name 0 Binary64.infinity = none :=
    boundsWords?_eq_none_iff.mpr ⟨by decide, rfl⟩
  refine ⟨⟨registry.size, name⟩, registry', vars.put ⟨registry.size, name⟩, rfl,
    (hmem _).mpr (.inr rfl), ⟨h.objective, h.objectiveConstant, h.objectiveWord, fun c hc => ?_,
      fun v hv => (hmem v).mpr (.inl (h.occurring v hv)), fun v hv => ?_, fun v hv => ?_,
      fun v hv hbounds => ?_, fun v hv halone => ?_⟩, fun m' => ?_⟩
  · refine (h.constraints c hc).congr fun v hv => hsame v (h.occurring v (.inr ⟨c, hc, ?_⟩))
    exact Constraint.occurs_normalize.mp hv
  · rcases (hmem v).mp hv with hv | rfl
    · rw [Registry.validate, hsame v hv]
      exact h.valid v hv
    · rw [Registry.validate, hcreated, Attributes.check_eq_ok_iff]
      refine ⟨(by decide : Attributes.isVoid 0 Binary64.infinity = false), fun hkind => ?_,
        fun hkind => ?_⟩
      · cases hkind
      · cases hkind
  · rcases (hmem v).mp hv with hv | rfl
    · exact h.name v hv
    · exact hname.1
  · rcases (hmem v).mp hv with hv | rfl
    · rw [hsame v hv] at hbounds
      exact h.boundsName v hv hbounds
    · exact hname
  · rcases (hmem v).mp hv with hv | rfl
    · rw [hsame v hv] at halone
      exact h.keyword v hv halone
    · rw [hcreated] at halone
      rcases halone with hreal | ⟨hlower, _⟩
      · exact absurd rfl hreal
      · exact absurd (show (0 : Float) = -Binary64.infinity from hlower) (by decide)
  · have hlisted : ∀ {α : Type} (f : Variable → Attributes → Option α),
        f ⟨registry.size, name⟩ (.bounded .real 0 Binary64.infinity) = none →
          ((vars.put ⟨registry.size, name⟩).toList.filterMap fun v => f v (registry'.attributes v))
            = vars.toList.filterMap fun v => f v (registry.attributes v) := by
      intro α f hnone
      refine filterMap_toList_eq fun n => ?_
      rw [VariableSet.get?_put]
      split
      · rename_i hn
        rw [show n = name from hn, hnew]
        show f _ (registry'.attributes _) = none
        rw [hcreated, hnone]
      · cases hget : vars.get? n with
        | none => rfl
        | some v =>
            have hv : v ∈ vars := by
              rw [VariableSet.mem_iff, vars.keyed n v hget]
              exact hget
            show f v (registry'.attributes v) = f v (registry.attributes v)
            rw [hsame v hv]
    have hbounds : boundsWords registry' (vars.put ⟨registry.size, name⟩)
        = boundsWords registry vars :=
      hlisted (fun v a => boundsWords? v.name a.lower a.upper) hunbounded
    have hkinds : ∀ kind, kind ≠ .real →
        namesOfKind registry' (vars.put ⟨registry.size, name⟩) kind
          = namesOfKind registry vars kind := by
      intro kind hkind
      rw [namesOfKind_eq, namesOfKind_eq]
      exact hlisted (fun v a => if a.kind = kind then some v.name else none)
        (if_neg fun heq => hkind heq.symm)
    rw [← String.toList_inj, write_toList, write_toList, Sections.ofModel, Sections.ofModel,
      hbounds, hkinds .binary (by decide), hkinds .integer (by decide)]

end IsReadableModel

theorem words_ofVariable (v : Variable) :
    (Term.ofVariable (K := Float) v).words = [v.name.toList] := by
  have hone : ((1 : Float) == 0) = false := by decide
  have hlist : (Term.ofVariable (K := Float) v).coefficients.toList = [(v, 1)] :=
    weighted_toList v hone
  have hconstant : (Term.ofVariable (K := Float) v).constant = 0 := constant_weighted v 1
  rw [Term.words, hlist, hconstant, Variable.sortByName, List.mergeSort_singleton]
  rw [Term.entryWords, Term.firstWords, if_neg (by decide), Term.factorWords, if_pos (by decide)]
  show _ ++ Term.constantWords 0 = _
  rw [Term.constantWords, if_neg (by decide), if_neg (by decide)]
  rfl

theorem words_of_isNaN {t : Term Float} (hconstant : t.isConstant = true)
    (hnan : t.constant.isNaN = true) : t.words = ["NaN".toList] := by
  have hplain : plain t.constant = "NaN" := if_pos (Binary64.isNaN_iff.mp hnan)
  rw [Term.words, sortByName_eq_nil_iff.mpr hconstant, Term.entryWords, hplain]

/-- An objective that is not a number is written like a variable of this
name, so its text is that of another model, which can be read. -/
theorem exists_readable_of_isNaN {o : Objective} (h : IsReadableModel registry m vars)
    (hrange : ∀ v ∈ vars, v.id < registry.size) (hconstant : o.term.isConstant = true)
    (hnan : o.term.constant.isNaN = true) :
    ∃ registry' m' vars', IsReadableModel registry' m' vars'
      ∧ write registry' m' vars' = write registry ⟨o, m.constraints⟩ vars := by
  have hname : IsPlainName "NaN" := ⟨by decide, by decide⟩
  -- The variable may be there already.
  obtain ⟨w, registry', vars', hw, hmem, hreadable, hwrite⟩ : ∃ w registry' vars', w.name = "NaN"
      ∧ w ∈ vars' ∧ IsReadableModel registry' m vars'
      ∧ ∀ m', write registry' m' vars' = write registry m' vars := by
    cases hget : vars.get? "NaN" with
    | none => exact h.withVariable hrange hname hget
    | some w =>
        have hw := vars.keyed "NaN" w hget
        refine ⟨w, registry, vars, hw, ?_, h, fun _ => rfl⟩
        rw [VariableSet.mem_iff, hw]
        exact hget
  have hone : (1 : Float).isNaN = false ∧ ((1 : Float) == 0) = false := ⟨by decide, by decide⟩
  have hoccurring : (Term.ofVariable (K := Float) w).occurring = [w] := by
    rw [Term.occurring, OrderedMap.keys, Term.ofVariable, weighted_toList w hone.2]
    rfl
  have honly : ∀ v ∈ (Term.ofVariable (K := Float) w).occurring, v = w := by
    rw [hoccurring]
    exact fun v hv => List.mem_singleton.mp hv
  have hterm : IsReadableTerm (Term.ofVariable (K := Float) w) := by
    refine ⟨fun v c hget => ?_, fun v hv u hu _ => (honly v hv).trans (honly u hu).symm,
      fun hnone => ?_⟩
    · have hentry := OrderedMap.mem_toList_iff.mpr hget
      rw [Term.ofVariable, weighted_toList w hone.2, List.mem_singleton] at hentry
      cases hentry
      exact ⟨hw ▸ hname, hone.1, hone.2⟩
    · rw [Term.isConstant, OrderedMap.isEmpty, Term.ofVariable, weighted_toList w hone.2] at hnone
      cases hnone
  refine ⟨registry', ⟨⟨o.sense, .ofVariable w⟩, m.constraints⟩, vars',
    hreadable.withObjective hterm (fun hnone => ?_) (fun v hv => ?_) fun v hv => ?_, ?_⟩
  · rw [Term.isConstant, OrderedMap.isEmpty, Term.ofVariable, weighted_toList w hone.2] at hnone
    cases hnone
  · rw [honly v hv, hw]
    decide
  · rw [honly v hv]
    exact hmem
  · rw [← hwrite, ← String.toList_inj, write_toList, write_toList, Sections.ofModel,
      Sections.ofModel, words_ofVariable, hw, words_of_isNaN hconstant hnan]

/-! ### Stability -/

/-- Whether the text of a document is read without a problem, into a
registry that may hold variables already, and as a document of the same
text. -/
def Document.IsStable (final : Registry) (doc : Document) (other : Registry) : Prop :=
  let text := write final doc.model doc.variableSet
  let again := read other text
  again.1.problems = [] ∧ write again.2 again.1.model again.1.variableSet = text

/-- Whatever is read without a problem can be written back, unless
something in the text will be taken for something else. -/
theorem isStable_of_read {registry final : Registry} {text : String} {doc : Document}
    (hread : read registry text = (doc, final)) (hproblems : doc.problems = [])
    (h : doc.IsRewritable final) (other : Registry) : doc.IsStable final other := by
  obtain ⟨s, hd⟩ := isAcceptedDocument_of_read hread hproblems
  have hreadable := @IsAcceptedDocument.isReadableModel s final doc hd h
  obtain ⟨registry', m', vars', hmodel, hwrite⟩ : ∃ registry' m' vars',
      IsReadableModel registry' m' vars'
        ∧ write registry' m' vars' = write final doc.model doc.variableSet := by
    by_cases hnan : doc.model.objective.term.isConstant = true
        ∧ doc.model.objective.term.constant.isNaN = true
    · have hzero : isKeyword (0 : Term Float).text.toList = false := by decide +kernel
      have hnumber : (0 : Float).isNaN = false := by decide
      have hpositive : (0 : Float) ≠ -0 := by decide
      have hmodel := @hreadable ⟨doc.model.objective.sense, 0⟩
        ((isAcceptedTerm_zero s).isReadable nofun fun _ => hnumber) (fun _ => hpositive) hzero
        fun v hv => absurd hv List.not_mem_nil
      have hother := exists_readable_of_isNaN (o := doc.model.objective) hmodel hd.inRange
        hnan.1 hnan.2
      exact hother
    · refine ⟨final, doc.model, doc.variableSet, ?_, rfl⟩
      refine @hreadable doc.model.objective (hd.objective.isReadable h.objective fun hconstant => ?_)
        (fun _ => hd.objective.constant) h.objectiveLine fun v hv => ?_
      · exact Bool.not_eq_true _ ▸ fun htrue => hnan ⟨hconstant, htrue⟩
      · rw [hd.found]
        exact (hd.objective.known v hv).mem
  obtain ⟨doc', final', hread', hd'⟩ := read_write hmodel other
  rw [hwrite] at hread'
  show (read other _).1.problems = [] ∧ write (read other _).2 _ _ = _
  rw [hread']
  exact ⟨hd'.problems, (hd'.write_eq hmodel).trans hwrite⟩

/-- A text in which keywords are names, where operators follow. -/
def capacityText : String :=
  "MAX obj: 3 max + 2\nST cap: b = 1 -> 2 max + y <= 1e2\nGENERAL y\n"

theorem capacityText_isStable :
    (read ∅ capacityText).1.problems = [] ∧ (read ∅ capacityText).1.IsRewritable
        (read ∅ capacityText).2
      ∧ (read ∅ capacityText).1.IsStable (read ∅ capacityText).2 ⟨#[.binary]⟩ := by
  have hproblems : (read ∅ capacityText).1.problems = [] := by
    rw [← List.isEmpty_iff]
    decide +kernel
  have hrewritable : (read ∅ capacityText).1.IsRewritable (read ∅ capacityText).2 := by
    decide +kernel
  exact ⟨hproblems, hrewritable, isStable_of_read rfl hproblems hrewritable _⟩

/-- Whether a text is read without a problem, and as a document that is
not stable. -/
def IsUnstable (text : String) : Prop :=
  (read ∅ text).1.problems = [] ∧ ¬ (read ∅ text).1.IsStable (read ∅ text).2 ∅

/-- The first four texts have lines that will be headers: the objective, a
binary, a general and a free variable. In the fifth a name will be a
number, and in the others what is not a number will be a name. -/
theorem unstable_texts :
    IsUnstable "MIN end" ∧ IsUnstable "MIN\nBINARY max" ∧ IsUnstable "MIN\nGENERAL end"
      ∧ IsUnstable "MIN\nBOUNDS\nmax >= -inf" ∧ IsUnstable "MIN\nBINARY inf"
      ∧ IsUnstable "MIN 0 inf x" ∧ IsUnstable "MIN\nST inf - inf <= x <= 4" := by
  unfold IsUnstable Document.IsStable
  simp only [← List.isEmpty_iff]
  decide +kernel

end LinearProgram.LpText
