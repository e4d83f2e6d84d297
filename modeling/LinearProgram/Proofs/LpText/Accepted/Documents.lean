import LinearProgram.Proofs.LpText.Accepted.Constraints
import LinearProgram.Proofs.LpText.Reading.RoundTrip

/-!
# `LinearProgram.Proofs.LpText.Accepted.Documents`: what a text is read as

`Draft.IsAccepted` is what holds of everything that has been read, of
any text and whatever is wrong with it: the objective and the
constraints are accepted ones, and names are names. Each item keeps it
(`isAccepted_take`), so it holds in the end.

Where no problem is reported, the bounds of every variable suit its
kind. `isReadableModel_of_read` puts this together: the model that was
read can be read back from its own text, unless

* a coefficient, a bound or a constant objective is not a number,
* the line of the objective, or of a variable in a list, is a keyword,
* a binary variable is called `inf` or `infinity`.
-/

set_option autoImplicit false

namespace LinearProgram.LpText

/-! ### Drafts -/

namespace Draft

/-- What holds of a draft of any text. -/
structure IsAccepted (d : Draft) : Prop where
  sound : d.symbols.IsSound
  named : d.symbols.IsNamed
  objective : ∀ o, d.objective = some o → IsAcceptedTerm d.symbols o.term
  constraints : ∀ c ∈ d.constraints, IsAcceptedConstraint d.symbols c

theorem isAccepted_start (registry : Registry) : (start registry).IsAccepted :=
  ⟨Symbols.isSound_start registry, Symbols.isNamed_start registry, nofun,
    fun _ hc => absurd hc List.not_mem_nil⟩

theorem IsAccepted.report {d : Draft} (h : d.IsAccepted) (line : Nat) (error : ReadError Float) :
    (d.report line error).IsAccepted := ⟨h.sound, h.named, h.objective, h.constraints⟩

/-- What has been read stays accepted while names grow. -/
theorem IsAccepted.withSymbols {d : Draft} (h : d.IsAccepted) {s : Symbols}
    (hgrows : d.symbols.Grows s) (hnamed : s.IsNamed) :
    IsAccepted { d with symbols := s } :=
  ⟨hgrows.sound h.sound, hnamed, fun o ho => (h.objective o ho).mono hgrows,
    fun c hc => (h.constraints c hc).mono hgrows⟩

/-- A reading keeps what holds if its result does. -/
theorem IsAccepted.attempt {d : Draft} (h : d.IsAccepted) {α : Type} {reading : Reading Float α}
    (hgrows : Leads Symbols.Grows reading)
    (hnamed : Leads (fun s s' => s.IsNamed → s'.IsNamed) reading) {keep : Draft → α → Draft}
    (hkeep : ∀ a s, reading d.symbols = (.ok a, s) → IsAccepted { d with symbols := s } →
      (keep { d with symbols := s } a).IsAccepted) (line : Nat) :
    (d.attempt line reading keep).IsAccepted := by
  have hgrows := hgrows d.symbols
  have hnamed := hnamed d.symbols h.named
  rw [Draft.attempt]
  split
  · rename_i a s heq
    rw [heq] at hgrows hnamed
    exact hkeep a s heq (h.withSymbols hgrows hnamed)
  · rename_i e s heq
    rw [heq] at hgrows hnamed
    exact (h.withSymbols hgrows hnamed).report line e

theorem IsAccepted.addObjective {d : Draft} (h : d.IsAccepted) {t : Term Float}
    (ht : IsAcceptedTerm d.symbols t) (sense : Sense) : (d.addObjective sense t).IsAccepted := by
  refine ⟨h.sound, h.named, fun o ho => ?_, h.constraints⟩
  rw [Draft.addObjective] at ho
  cases hobjective : d.objective with
  | none =>
      rw [hobjective] at ho
      cases ho
      exact ht
  | some o' =>
      rw [hobjective] at ho
      cases ho
      exact (h.objective o' hobjective).add ht.known

theorem IsAccepted.openSection {d : Draft} (h : d.IsAccepted) (opened : Section) :
    (d.openSection opened).IsAccepted := by
  cases opened with
  | objective sense =>
      refine ⟨h.sound, h.named, fun o ho => ?_, h.constraints⟩
      have ho : some (d.objective.getD ⟨sense, 0⟩) = some o := ho
      cases hobjective : d.objective with
      | none =>
          rw [hobjective] at ho
          cases ho
          exact isAcceptedTerm_zero _
      | some o' =>
          rw [hobjective] at ho
          cases ho
          exact h.objective _ hobjective
  | preamble => exact h
  | constraints => exact h
  | bounds => exact h
  | binary => exact h
  | general => exact h
  | closed => exact h

theorem IsAccepted.declareWord {d : Draft} (h : d.IsAccepted) (kind : Kind) (line : Nat)
    (word : List Char) : (d.declareWord kind line word).IsAccepted := by
  unfold Draft.declareWord
  split
  · rename_i hname
    have hname : isName (String.ofList word).toList = true := by
      rw [String.toList_ofList]
      exact hname
    have hmention := h.withSymbols (d.symbols.grows_mention (String.ofList word))
      (h.named.mention hname)
    dsimp only
    split
    · rename_i declared old heq
      obtain ⟨e, he, hkind⟩ := Option.bind_eq_some_iff.mp heq
      split
      · rename_i hsame
        refine hmention.withSymbols (Symbols.grows_declareKind line fun e' old' he' hkind' => ?_)
          (hmention.named.declareKind _ kind line)
        rw [he] at he'
        cases he'
        rw [hkind] at hkind'
        cases hkind'
        exact hsame.symm
      · exact hmention.report line _
    · rename_i hnone
      refine hmention.withSymbols (Symbols.grows_declareKind line fun e old he hkind => ?_)
        (hmention.named.declareKind _ kind line)
      rw [he] at hnone
      rw [show (some e).bind (·.kind) = e.kind from rfl, hkind] at hnone
      cases hnone
  · exact h.report line _

theorem IsAccepted.declareWords {d : Draft} (h : d.IsAccepted) (kind : Kind) (s : Numbered) :
    (d.declareWords kind s).IsAccepted := by
  unfold Draft.declareWords
  generalize Text.words s.text = ws
  induction ws generalizing d with
  | nil => exact h
  | cons w ws ih => exact ih (h.declareWord kind s.line w)

/-- Each item keeps what holds of a draft. -/
theorem IsAccepted.take {d : Draft} (h : d.IsAccepted) (item : Item) : (d.take item).IsAccepted := by
  cases item with
  | opening opened => exact h.openSection opened
  | statement place s =>
      cases place with
      | preamble => exact h.report _ _
      | closed => exact h.report _ _
      | binary => exact h.declareWords .binary s
      | general => exact h.declareWords .integer s
      | bounds =>
          show (d.attempt s.line (boundStatement s) fun d _ => d).IsAccepted
          refine h.attempt (grows_boundStatement s) (isNamed_boundStatement s) ?_ s.line
          exact fun _ _ _ hd => hd
      | objective sense =>
          show (d.attempt s.line (objectiveTerm s.text) fun d t =>
            d.addObjective sense t).IsAccepted
          refine h.attempt (grows_objectiveTerm s.text) (isNamed_objectiveTerm s.text) ?_ s.line
          exact fun t s' ht hd => hd.addObjective (isAcceptedTerm_objectiveTerm ht) sense
      | constraints =>
          show (d.attempt s.line (constraintStatement s) fun d c =>
            { d with constraints := d.constraints ++ [c] }).IsAccepted
          refine h.attempt (grows_constraintStatement s) (isNamed_constraintStatement s) ?_ s.line
          refine fun c s' hc hd => ⟨hd.sound, hd.named, hd.objective, fun c' hc' => ?_⟩
          rcases List.mem_append.mp hc' with hc' | hc'
          · exact hd.constraints c' hc'
          · rw [List.mem_singleton.mp hc']
            exact isAcceptedConstraint_statement hc

theorem IsAccepted.foldl_take {items : List Item} {d : Draft} (h : d.IsAccepted) :
    (items.foldl Draft.take d).IsAccepted := by
  induction items generalizing d with
  | nil => exact h
  | cons item items ih => exact ih (h.take item)

end Draft

/-! ### Documents -/

/-- Whether nothing in the text of a document will be taken for
something else. -/
structure Document.IsRewritable (final : Registry) (doc : Document) : Prop where
  objective : ∀ p ∈ doc.model.objective.term.coefficients.toList, p.2.isNaN = false
  constraints : ∀ c ∈ doc.model.constraints, ∀ p ∈ c.term.coefficients.toList, p.2.isNaN = false
  bounds : ∀ c ∈ doc.model.constraints, c.normalize.shape.ForBounds (·.isNaN = false)
  /-- The objective is no header. -/
  objectiveLine : isKeyword doc.model.objective.term.text.toList = false
  /-- Nor is a variable that stands alone in a line. -/
  keyword : ∀ v ∈ doc.variableSet.toList, StandsAlone (final.attributes v) →
    isKeyword v.name.toList = false
  /-- The bounds of a binary variable are written, so its name must not
  be read as a number. -/
  infinity : ∀ v ∈ doc.variableSet.toList, (final.attributes v).kind = .binary →
    isInfinityWord v.name.toList = false

instance (final : Registry) (doc : Document) : Decidable (doc.IsRewritable final) :=
  decidable_of_iff
    ((∀ p ∈ doc.model.objective.term.coefficients.toList, p.2.isNaN = false)
      ∧ (∀ c ∈ doc.model.constraints, ∀ p ∈ c.term.coefficients.toList, p.2.isNaN = false)
      ∧ (∀ c ∈ doc.model.constraints, c.normalize.shape.ForBounds (·.isNaN = false))
      ∧ isKeyword doc.model.objective.term.text.toList = false
      ∧ (∀ v ∈ doc.variableSet.toList, StandsAlone (final.attributes v) →
        isKeyword v.name.toList = false)
      ∧ ∀ v ∈ doc.variableSet.toList, (final.attributes v).kind = .binary →
        isInfinityWord v.name.toList = false)
    ⟨fun ⟨objective, constraints, bounds, objectiveLine, keyword, infinity⟩ =>
      ⟨objective, constraints, bounds, objectiveLine, keyword, infinity⟩,
      fun h => ⟨h.objective, h.constraints, h.bounds, h.objectiveLine, h.keyword, h.infinity⟩⟩

theorem IsAcceptedTerm.isReadable {s : Symbols} {t : Term Float} (h : IsAcceptedTerm s t)
    (hnumber : ∀ p ∈ t.coefficients.toList, p.2.isNaN = false)
    (hconstant : t.isConstant = true → t.constant.isNaN = false) : IsReadableTerm t := by
  refine ⟨fun v c hget => ⟨?_, hnumber (v, c) (OrderedMap.mem_toList_iff.mpr hget),
    t.nonzero v c hget⟩, fun v hv w hw hname => ?_, hconstant⟩
  · exact (h.known v (Term.mem_occurring.mpr ⟨c, hget⟩)).name
  · exact VariableSet.eq_of_name_eq (h.known v hv).mem (h.known w hw).mem hname

/-- Bounds that are not negative zero do not become it where the
constant of the term is taken off. -/
theorem forBounds_normalize {shape : Shape Float} (h : shape.ForBounds (· ≠ -0)) (offset : Float)
    (hnumber : (shape.normalize offset).ForBounds (·.isNaN = false)) :
    (shape.normalize offset).ForBounds IsReadableBound := by
  cases shape with
  | left bound relation => exact ⟨hnumber, Binary64.sub_ne_neg_zero _ h⟩
  | right relation bound => exact ⟨hnumber, Binary64.sub_ne_neg_zero _ h⟩
  | equal bound => exact ⟨hnumber, Binary64.sub_ne_neg_zero _ h⟩
  | range lower l r upper =>
      exact ⟨⟨hnumber.1, Binary64.sub_ne_neg_zero _ h.1⟩,
        ⟨hnumber.2, Binary64.sub_ne_neg_zero _ h.2⟩⟩

/-- The normal form of an accepted row of numbers can be read. -/
theorem IsAcceptedRow.isReadable {s : Symbols} {row : Row Float} (h : IsAcceptedRow s row)
    (hnumber : ∀ p ∈ row.term.coefficients.toList, p.2.isNaN = false)
    (hbounds : (row.shape.normalize row.term.constant).ForBounds (·.isNaN = false)) :
    IsReadableRow ⟨row.shape.normalize row.term.constant, row.term.setConstant 0, row.name⟩ := by
  have hzero : (0 : Float) ≠ -0 := by decide
  have hnone : ((0 : Float) == 0) = true := by decide
  have hfinite : (0 : Float).isNaN = false := by decide
  have hterm : IsAcceptedTerm s (row.term.setConstant 0) := ⟨h.term.known, hzero⟩
  refine ⟨isReadableShape_normalize h.built (forBounds_normalize h.bounds _ hbounds),
    hterm.isReadable hnumber fun _ => hfinite, hnone, fun hconstant => ⟨?_, rfl⟩, h.name⟩
  have hrange := h.varies hconstant
  cases hshape : row.shape with
  | left bound relation =>
      rw [hshape] at hrange
      cases hrange
  | right relation bound =>
      rw [hshape] at hrange
      cases hrange
  | equal bound =>
      rw [hshape] at hrange
      cases hrange
  | range lower l r upper => trivial

/-- A variable that has been declared binary is binary in the end. -/
theorem Symbols.IsBinary.kind_eq {s : Symbols} {final : Registry} {v : Variable} (h : s.IsBinary v)
    (hv : v ∈ s.variableSet)
    (hfinal : ∀ name e, s.entries.get? name = some e →
      HasValues (final.attributes e.handle) (settled e)) : (final.attributes v).kind = .binary := by
  obtain ⟨e, line, he, hkind⟩ := h
  obtain ⟨e', he', rfl⟩ := Symbols.mem_variableSet_iff.mp hv
  rw [he] at he'
  cases he'
  rw [(hfinal _ e he).kind]
  show Draft.finalKind e = .binary
  rw [Draft.finalKind, hkind]

theorem IsAcceptedGuard.isReadable {s : Symbols} {final : Registry} {g : Constraint Float}
    (h : IsAcceptedGuard s g) (hswitch : g.IsSwitch)
    (hfinal : ∀ name e, s.entries.get? name = some e →
      HasValues (final.attributes e.handle) (settled e)) : IsReadableGuard final g := by
  obtain ⟨⟨row, rfl, hname, hrow⟩, hbinary⟩ := h
  obtain ⟨⟨value, hvalue⟩, v, hv⟩ := hswitch
  have hoccurs : v ∈ row.term.occurring := by
    have hoccurring : row.term.occurring = [v] := occurring_of_loneVariable? hv
    rw [hoccurring]
    exact List.mem_singleton_self v
  have hkind := (hbinary v hv).kind_eq (hrow.term.known v hoccurs).mem hfinal
  refine isReadableGuard_of_isPortable ⟨rfl, hname, isIndicator_of_parts hvalue hv hkind,
    fun heq => ?_⟩ fun w hw => (hrow.term.known w hw).name
  have hbounds := hrow.bounds
  rw [show row.shape = .equal (-0) from heq] at hbounds
  exact hbounds rfl

theorem IsAcceptedConstraint.isReadable {s : Symbols} {final : Registry} {c : Constraint Float}
    (h : IsAcceptedConstraint s c)
    (hnumber : ∀ p ∈ c.term.coefficients.toList, p.2.isNaN = false)
    (hbounds : c.normalize.shape.ForBounds (·.isNaN = false))
    (hfinal : ∀ name e, s.entries.get? name = some e →
      HasValues (final.attributes e.handle) (settled e)) :
    IsReadableConstraint final c.normalize := by
  cases c with
  | plain row => exact IsAcceptedRow.isReadable h hnumber hbounds
  | guarded g row => exact ⟨h.1.1.isReadable h.1.2 hfinal, h.2.isReadable hnumber hbounds⟩

theorem IsAcceptedConstraint.knows {s : Symbols} {c : Constraint Float}
    (h : IsAcceptedConstraint s c) {v : Variable} (hv : c.Occurs v) : s.Knows v := by
  cases c with
  | plain row => exact IsAcceptedTerm.known h.term v hv
  | guarded g row =>
      obtain ⟨⟨⟨⟨grow, rfl, _, hgrow⟩, _⟩, _⟩, hrow⟩ := h
      rcases hv with hv | hv
      · exact hrow.term.known v hv
      · exact hgrow.term.known v hv

/-- Where no bounds are given, those of an integer or a real variable
are not written. -/
theorem boundsWords?_settled {e : Entry} (hbounds : e.bounds = none)
    (hkind : (settled e).kind ≠ .binary) (name : String) :
    boundsWords? name (settled e).lower (settled e).upper = none := by
  have hfinal : Draft.finalBounds e = (0, Binary64.infinity) := by
    have hkind : Draft.finalKind e ≠ .binary := hkind
    unfold Draft.finalBounds
    rw [hbounds]
    cases hcase : Draft.finalKind e with
    | binary => exact absurd hcase hkind
    | integer => rfl
    | real => rfl
  rw [boundsWords?_eq_none_iff, settled, hfinal]
  exact ⟨(by decide : ((0 : Float) == 0) = true), rfl⟩

/-- What a document has that was read without a problem. -/
structure IsAcceptedDocument (s : Symbols) (final : Registry) (doc : Document) : Prop where
  found : doc.variableSet = s.variableSet
  inRange : ∀ v ∈ doc.variableSet, v.id < final.size
  named : s.IsNamed
  objective : IsAcceptedTerm s doc.model.objective.term
  constraints : ∀ c ∈ doc.model.constraints, IsAcceptedConstraint s c
  values : ∀ name e, s.entries.get? name = some e →
    HasValues (final.attributes e.handle) (settled e)
  valid : ∀ name e, s.entries.get? name = some e → (settled e).check name = .ok ()

/-- What is read of a text, before its variables are settled. -/
def Draft.ofText (registry : Registry) (text : String) : Draft :=
  (items text.toList).foldl Draft.take (.start registry)

theorem Draft.isAccepted_ofText (registry : Registry) (text : String) :
    (Draft.ofText registry text).IsAccepted := (Draft.isAccepted_start registry).foldl_take

/-- The document of a text, and what its variables are in the end. -/
theorem read_spec (registry : Registry) (text : String) :
    ∃ final, read registry text
        = (⟨⟨(Draft.ofText registry text).objective.getD .zero,
              (Draft.ofText registry text).constraints⟩,
            (Draft.ofText registry text).symbols.variableSet,
            (Draft.ofText registry text).problems
              ++ (Draft.ofText registry text).symbols.entries.values.filterMap
                settlementProblem?⟩, final)
      ∧ (∀ name e, (Draft.ofText registry text).symbols.entries.get? name = some e →
        HasValues (final.attributes e.handle) (settled e))
      ∧ final.size = (Draft.ofText registry text).symbols.registry.size :=
  settle_spec (Draft.isAccepted_ofText registry text).sound

/-- Where no problem is reported, the bounds of all variables suit their
kinds. -/
theorem isAcceptedDocument_of_read {registry final : Registry} {text : String} {doc : Document}
    (hread : read registry text = (doc, final)) (hproblems : doc.problems = []) :
    ∃ s, IsAcceptedDocument s final doc := by
  have hd := Draft.isAccepted_ofText registry text
  obtain ⟨settledRegistry, heq, hfinal, hsize⟩ := read_spec registry text
  rw [heq] at hread
  cases hread
  generalize Draft.ofText registry text = d at *
  refine ⟨d.symbols, rfl, fun v hv => ?_, hd.named, ?_, hd.constraints, hfinal,
    fun name e he => ?_⟩
  · rw [hsize]
    exact hd.sound.inRange v hv
  · show IsAcceptedTerm d.symbols (d.objective.getD .zero).term
    cases ho : d.objective with
    | none => exact isAcceptedTerm_zero _
    | some o => exact hd.objective o ho
  · have hnone := List.filterMap_eq_nil_iff.mp (List.append_eq_nil_iff.mp hproblems).2 e
      (mem_values_iff.mpr ⟨name, he⟩)
    unfold settlementProblem? at hnone
    rw [d.symbols.keyed name e he] at hnone
    split at hnone
    · assumption
    · cases hnone

/-- The variables that a document has been read with are valid. -/
theorem IsAcceptedDocument.validate_eq {s : Symbols} {final : Registry} {doc : Document}
    (hd : IsAcceptedDocument s final doc) {v : Variable} (hv : v ∈ doc.variableSet) :
    final.validate v = .ok () := by
  rw [hd.found] at hv
  obtain ⟨e, he, rfl⟩ := Symbols.mem_variableSet_iff.mp hv
  exact ((hd.values _ e he).check_eq _).trans (hd.valid _ e he)

/-- A document that was read without a problem can be read back from its
own text, with any objective that can be, unless something in it will be
taken for something else. -/
theorem IsAcceptedDocument.isReadableModel {s : Symbols} {final : Registry} {doc : Document}
    (hd : IsAcceptedDocument s final doc) (h : doc.IsRewritable final) {o : Objective}
    (ho : IsReadableTerm o.term) (hconstant : o.term.isConstant = true → o.term.constant ≠ -0)
    (hline : isKeyword o.term.text.toList = false)
    (hoccurs : ∀ v ∈ o.term.occurring, v ∈ doc.variableSet) :
    IsReadableModel final ⟨o, doc.model.constraints⟩ doc.variableSet := by
  have hentry : ∀ v ∈ doc.variableSet, ∃ e, s.entries.get? v.name = some e
      ∧ HasValues (final.attributes v) (settled e) := by
    intro v hv
    rw [hd.found] at hv
    obtain ⟨e, he, rfl⟩ := Symbols.mem_variableSet_iff.mp hv
    exact ⟨e, he, hd.values _ e he⟩
  refine ⟨ho, hconstant, fun v hv hwords => ?_, fun c hc => ?_, fun v hv => ?_, fun v hv => ?_,
    fun v hv => ?_, fun v hv hbounds => ?_,
    fun v hv => h.keyword v (VariableSet.mem_toList_iff.mpr hv)⟩
  · have hspaced := o.term.spaced_words
    have hwords : o.term.words = [v.name.toList] := hwords
    rw [hwords] at hspaced
    have htext : v.name.toList ++ [] = o.term.text.toList := List.tail_eq_of_cons_eq hspaced
    rw [List.append_nil] at htext
    rw [htext]
    exact hline
  · exact (hd.constraints c hc).isReadable (h.constraints c hc) (h.bounds c hc) hd.values
  · rcases hv with hv | ⟨c, hc, hv⟩
    · exact hoccurs v hv
    · rw [hd.found]
      exact ((hd.constraints c hc).knows hv).mem
  · exact hd.validate_eq hv
  · obtain ⟨e, he, _⟩ := hentry v hv
    exact (hd.named _ e he).1
  · obtain ⟨e, he, hvalues⟩ := hentry v hv
    by_cases hkind : (settled e).kind = .binary
    · exact ⟨(hd.named _ e he).1, h.infinity v (VariableSet.mem_toList_iff.mpr hv) (hvalues.kind.trans hkind)⟩
    · refine (hd.named _ e he).2 ?_
      cases hgiven : e.bounds with
      | some b => rfl
      | none =>
          rw [hvalues.lower, hvalues.upper, boundsWords?_settled hgiven hkind] at hbounds
          exact absurd rfl hbounds

end LinearProgram.LpText
