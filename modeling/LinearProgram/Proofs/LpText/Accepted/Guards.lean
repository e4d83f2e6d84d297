import LinearProgram.Proofs.LpText.Accepted.Documents

/-!
# `LinearProgram.Proofs.LpText.Accepted.Guards`: guards at the end of a text

Where a guard is read, its variable becomes binary at once. The kinds
and the bounds of variables are settled at the end of the text, by what
all of it says of them, so that a guard that was accepted might be none
any more. It still is one: no later line takes the declaration back,
because a binary variable that is declared general is a problem and
stays binary (`Symbols.Grows`), and bounds say nothing of the kind.

* `Document.HasGuard` is what a guard is in a document.
* `guards_of_read`: every guard of every document is one, and without
  problems every variable is valid.
-/

set_option autoImplicit false

namespace LinearProgram.LpText

/-- Whether a constraint is a guard by the final kinds of the variables:
it has neither a name nor a guard of its own, and says of a binary
variable of the document that it is 0 or that it is 1. -/
structure Document.HasGuard (final : Registry) (doc : Document) (g : Constraint Float) :
    Prop where
  unguarded : g.guard = none
  unnamed : g.name = none
  indicator : g.isIndicator final = true
  binary : ∃ v value, g.indicatorLiteral? final = some (v, value) ∧ v ∈ doc.variableSet
    ∧ (final.attributes v).kind = .binary

/-- An accepted guard is a guard in the end. -/
theorem IsAcceptedGuard.hasGuard {s : Symbols} {final : Registry} {doc : Document}
    {g : Constraint Float} (h : IsAcceptedGuard s g) (hswitch : g.IsSwitch)
    (hfound : doc.variableSet = s.variableSet)
    (hfinal : ∀ name e, s.entries.get? name = some e →
      HasValues (final.attributes e.handle) (settled e)) : doc.HasGuard final g := by
  obtain ⟨⟨row, rfl, hname, hrow⟩, hbinary⟩ := h
  obtain ⟨⟨value, hvalue⟩, v, hv⟩ := hswitch
  have hoccurs : v ∈ row.term.occurring := by
    rw [show row.term.occurring = [v] from occurring_of_loneVariable? hv]
    exact List.mem_singleton_self v
  have hmem := (hrow.term.known v hoccurs).mem
  have hkind := (hbinary v hv).kind_eq hmem hfinal
  exact ⟨rfl, hname, isIndicator_of_parts hvalue hv hkind, v, value,
    indicatorLiteral?_of_parts hvalue hv hkind, hfound ▸ hmem, hkind⟩

/-- Whatever a text says after a guard, and before it, the guard is one
in the end. In a text without problems every variable is valid. -/
theorem guards_of_read (registry : Registry) (text : String) :
    (∀ c ∈ (read registry text).1.model.constraints, ∀ g, c.guard = some g →
        (read registry text).1.HasGuard (read registry text).2 g)
      ∧ ((read registry text).1.problems = [] → ∀ v ∈ (read registry text).1.variableSet,
        (read registry text).2.validate v = .ok ()) := by
  constructor
  · intro c hc g hg
    obtain ⟨final, heq, hfinal, _⟩ := read_spec registry text
    rw [heq] at hc ⊢
    have haccepted := (Draft.isAccepted_ofText registry text).constraints c hc
    cases c with
    | plain row => cases hg
    | guarded guard row =>
        cases hg
        exact haccepted.1.1.hasGuard haccepted.1.2 rfl hfinal
  · intro hproblems v hv
    obtain ⟨s, hd⟩ := isAcceptedDocument_of_read rfl hproblems
    exact hd.validate_eq hv

/-- A text whose guard is followed by bounds, by another declaration of
its variable and by one of another variable. -/
def switchText : String :=
  "MIN x\nST on: b = 1 -> x >= 3\nBOUNDS 0 <= b <= 1\nBINARY b\nGENERAL x\n"

theorem guards_of_switchText :
    (∃ c ∈ (read ∅ switchText).1.model.constraints, ∃ g, c.guard = some g
        ∧ (read ∅ switchText).1.HasGuard (read ∅ switchText).2 g)
      ∧ (read ∅ switchText).1.problems = []
      ∧ ∀ v ∈ (read ∅ switchText).1.variableSet, (read ∅ switchText).2.validate v = .ok () := by
  have hproblems : (read ∅ switchText).1.problems = [] := by
    rw [← List.isEmpty_iff]
    decide +kernel
  have hguarded : ∃ c ∈ (read ∅ switchText).1.model.constraints, c.guard.isSome = true := by
    rw [← List.any_eq_true]
    decide +kernel
  obtain ⟨hguards, hvalid⟩ := guards_of_read ∅ switchText
  obtain ⟨c, hc, hsome⟩ := hguarded
  obtain ⟨g, hg⟩ := Option.isSome_iff_exists.mp hsome
  exact ⟨⟨c, hc, g, hg, hguards c hc g hg⟩, hproblems, hvalid hproblems⟩

end LinearProgram.LpText
