import LinearProgram.Proofs.LpText.Reading.Documents
import LinearProgram.Proofs.Model.Domains

/-!
# `LinearProgram.Proofs.LpText.Reading.Restoration`: a model and what is read of its text

The document that is read of a model has the model up to handles. Each
variable that the text mentions has the kind and the bounds of the one
it was written for, where a lower bound of negative zero has become
zero.

* `IsRestoredDocument` is what the document has of the model, and
  `read_write` that the text is read as such a document.
* `IsRestoredDocument.write_eq`: it is written in the same text again.
* `IsRestoredDocument.exists_renaming`: if every variable occurs, the
  model and the document differ in handles only.
-/

set_option autoImplicit false

namespace LinearProgram.LpText

/-! ### The attributes of a variable -/

theorem eq_zero_or_neg_zero {x : Float} (h : (x == 0) = true) : x = 0 ∨ x = -0 := by
  have hcode := Binary64.beq_zero_iff.mp h
  cases hsign : Binary64.isNegative x with
  | false => exact .inl (Binary64.ext_code (hsign.trans (by decide)) (hcode.trans (by decide)))
  | true => exact .inr (Binary64.ext_code (hsign.trans (by decide)) (hcode.trans (by decide)))

theorem lt_neg_zero_iff {x : Float} : x < -0 ↔ x < 0 := by
  rw [Binary64.lt_iff, Binary64.lt_iff, Binary64.unpack_neg_zero, Binary64.unpack_zero]
  cases x.toModel.unpack with
  | notANumber => exact Iff.rfl
  | infinity sign => cases sign <;> exact Iff.rfl
  | zero sign => exact Iff.rfl
  | finite sign e q => cases sign <;> exact Iff.rfl

/-- The attributes of a variable as they can be seen in its text. -/
def writtenAttributes (a : Attributes) : Attributes :=
  .bounded a.kind (writtenLower a.lower) a.upper

/-- What can be seen of suitable attributes is suitable. -/
theorem check_writtenAttributes {a : Attributes} {name : String} (h : a.check name = .ok ()) :
    (writtenAttributes a).check name = .ok () := by
  obtain ⟨hvoid, hbinary, hinteger⟩ := Attributes.check_eq_ok_iff.mp h
  have hlower : writtenLower a.lower = a.lower ∨ a.lower = -0 ∧ writtenLower a.lower = 0 := by
    unfold writtenLower
    split
    · rename_i hzero
      exact (eq_zero_or_neg_zero hzero).imp Eq.symm fun heq => ⟨heq, rfl⟩
    · exact .inl rfl
  rcases hlower with hsame | ⟨hnegative, hzero⟩
  · rw [writtenAttributes, hsame]
    exact Attributes.check_eq_ok_iff.mpr ⟨hvoid, hbinary, hinteger⟩
  · rw [hnegative] at hvoid hbinary hinteger
    rw [writtenAttributes, hzero]
    have hbelow : ¬ (0 : Float) < 0 := by decide
    have hwhole : Attributes.isFractional 0 = false := by decide
    have hvoid : Attributes.isVoid 0 a.upper = false := by
      simp only [Attributes.isVoid, lt_neg_zero_iff] at hvoid
      rw [Attributes.isVoid, ← hvoid]
      rfl
    exact Attributes.check_eq_ok_iff.mpr
      ⟨hvoid, fun hkind => ⟨hbelow, (hbinary hkind).2⟩, fun hkind => ⟨hwhole, (hinteger hkind).2⟩⟩

theorem boundsWords?_eq_none_iff {name : String} {lower upper : Float} :
    boundsWords? name lower upper = none ↔ (lower == 0) = true ∧ upper = Binary64.infinity := by
  have hinfinity : (upper == Binary64.infinity) = true ↔ upper = Binary64.infinity :=
    Binary64.beq_infinity_iff false
  unfold boundsWords?
  rw [← hinfinity, ← Bool.and_eq_true]
  split
  · rename_i h
    exact ⟨fun _ => h, fun _ => rfl⟩
  · rename_i h
    refine ⟨fun hnone => ?_, fun h' => absurd h' h⟩
    split at hnone
    · cases hnone
    split at hnone
    · cases hnone
    split at hnone
    · cases hnone
    · cases hnone

theorem boundsWords?_writtenLower (name : String) (lower upper : Float) :
    boundsWords? name (writtenLower lower) upper = boundsWords? name lower upper := by
  unfold writtenLower
  split
  · rename_i hzero
    rcases eq_zero_or_neg_zero hzero with rfl | rfl
    · rfl
    · rfl
  · rfl

/-- An entry that says of a variable what is so, and all that was
written of it, calls for the variable's own attributes. -/
theorem settled_eq {e : Entry} {a : Attributes} {name : String} (hsuits : e.Suits a)
    (hvalid : a.check name = .ok ()) (hkind : a.kind ≠ .real → e.kind.isSome = true)
    (hbounds : boundsWords? name a.lower a.upper ≠ none → e.bounds.isSome = true) :
    settled e = writtenAttributes a := by
  have hfinalKind : Draft.finalKind e = a.kind := by
    unfold Draft.finalKind
    cases hdeclared : e.kind with
    | some declared => exact (hsuits.kind declared.1 declared.2 hdeclared).symm
    | none =>
        by_cases hreal : a.kind = .real
        · exact hreal.symm
        · have hsome := hkind hreal
          rw [hdeclared] at hsome
          cases hsome
  have hfinalBounds : Draft.finalBounds e = (writtenLower a.lower, a.upper) := by
    unfold Draft.finalBounds
    rw [hfinalKind]
    cases hgiven : e.bounds with
    | some b =>
        obtain ⟨hlower, hupper⟩ := hsuits.bounds b hgiven
        show (b.lower, b.upper) = _
        rw [hlower, hupper]
    | none =>
        have hdefault : boundsWords? name a.lower a.upper = none := by
          by_cases hnone : boundsWords? name a.lower a.upper = none
          · exact hnone
          · have hsome := hbounds hnone
            rw [hgiven] at hsome
            cases hsome
        obtain ⟨hzero, hinfinity⟩ := boundsWords?_eq_none_iff.mp hdefault
        have hlower : writtenLower a.lower = 0 := if_pos hzero
        rw [hlower, hinfinity]
        cases hcase : a.kind with
        | real => rfl
        | integer => rfl
        | binary =>
            -- A binary variable is not unbounded above.
            have hupper := ((Attributes.check_eq_ok_iff.mp hvalid).2.1 hcase).2
            rw [hinfinity] at hupper
            exact absurd (by decide) hupper
  rw [settled, hfinalKind, hfinalBounds, writtenAttributes]

/-! ### Documents -/

variable {registry : Registry} {m : Model} {vars : VariableSet}

/-- What a document has of a model: no problem is reported, terms and
constraints are the same up to handles, and its variables are those that
the text mentions, with the attributes that can be seen there. -/
structure IsRestoredDocument (registry : Registry) (m : Model) (vars : VariableSet)
    (doc : Document) (final : Registry) : Prop where
  problems : doc.problems = []
  sense : doc.model.objective.sense = m.objective.sense
  objective : IsRestored doc.variableSet m.objective.term doc.model.objective.term
  constraints : List.Forall₂ (IsRestoredConstraint doc.variableSet)
    (m.constraints.map Constraint.normalize) doc.model.constraints
  found : ∀ w ∈ doc.variableSet, ∃ v ∈ vars, v.name = w.name
    ∧ HasValues (final.attributes w) (writtenAttributes (registry.attributes v))
  /-- A variable that the text does not mention is real, and its bounds
  are zero and infinity. -/
  mentioned : ∀ v ∈ vars, (∃ w ∈ doc.variableSet, w.name = v.name)
    ∨ (registry.attributes v).kind = .real
      ∧ boundsWords? v.name (registry.attributes v).lower (registry.attributes v).upper = none

/-- The text of a model is read as a document that has the model. -/
theorem read_write (h : IsReadableModel registry m vars) (other : Registry) :
    ∃ doc final, read other (write registry m vars) = (doc, final)
      ∧ IsRestoredDocument registry m vars doc final := by
  obtain ⟨d, hitems, hd⟩ := foldl_items h other
  obtain ⟨final, hsettle, hfinal, _⟩ := settle_spec hd.faithful.sound
  obtain ⟨u, hobjective, hu⟩ := hd.objective
  have hentry : ∀ name e, d.symbols.entries.get? name = some e →
      ∃ v ∈ vars, v.name = name ∧ settled e = writtenAttributes (registry.attributes v) := by
    intro name e he
    obtain ⟨v, hv, hname, hsuits⟩ := hd.faithful.agrees name e he
    refine ⟨v, hv, hname, settled_eq hsuits (h.valid v hv) (fun hkind => ?_) fun hbounds => ?_⟩
    · obtain ⟨e', he', hsome⟩ := hd.kinds v hv hkind
      rw [hname, he] at he'
      rw [Option.some.inj he']
      exact hsome
    · obtain ⟨e', he', hsome⟩ := hd.bounds v hv hbounds
      rw [hname, he] at he'
      rw [Option.some.inj he']
      exact hsome
  have hproblems : d.problems ++ d.symbols.entries.values.filterMap settlementProblem? = [] := by
    rw [hd.faithful.problems, List.nil_append, List.filterMap_eq_nil_iff]
    intro e he
    obtain ⟨name, he⟩ := mem_values_iff.mp he
    obtain ⟨v, hv, hname, hsettled⟩ := hentry name e he
    have hcheck := check_writtenAttributes (h.valid v hv)
    rw [settlementProblem?, hsettled, d.symbols.keyed name e he, ← hname, hcheck]
  have hread : read other (write registry m vars)
      = (⟨⟨⟨m.objective.sense, u⟩, d.constraints⟩, d.symbols.variableSet, []⟩, final) := by
    rw [read, write_toList, Sections.items_lines h.isPrintable.isSeparate_ofModel, hitems, hsettle,
      hobjective, hproblems]
    rfl
  refine ⟨_, final, hread, rfl, rfl, hu, hd.constraints, fun w hw => ?_, fun v hv => ?_⟩
  · obtain ⟨e, he, rfl⟩ := Symbols.mem_variableSet_iff.mp hw
    obtain ⟨v, hv, hname, hsettled⟩ := hentry _ e he
    refine ⟨v, hv, hname, ?_⟩
    rw [← hsettled]
    exact hfinal _ e he
  · have hfound : ∀ e, d.symbols.entries.get? v.name = some e →
        ∃ w ∈ d.symbols.variableSet, w.name = v.name := fun e he =>
      ⟨e.handle, Symbols.mem_of_get? he, d.symbols.keyed _ e he⟩
    by_cases hkind : (registry.attributes v).kind = .real
    · by_cases hbounds : boundsWords? v.name (registry.attributes v).lower
          (registry.attributes v).upper = none
      · exact .inr ⟨hkind, hbounds⟩
      · obtain ⟨e, he, _⟩ := hd.bounds v hv hbounds
        exact .inl (hfound e he)
    · obtain ⟨e, he, _⟩ := hd.kinds v hv hkind
      exact .inl (hfound e he)

/-! ### Writing the document -/

theorem values_filterMap {α β : Type} (f : α → Option β) (s : OrderedMap String α) :
    (s.filterMap f).values = s.values.filterMap f := by
  show List.map _ (List.filterMap _ s.toList) = List.filterMap f (List.map _ s.toList)
  rw [List.map_filterMap, List.filterMap_map]
  refine congrArg (List.filterMap · s.toList) (funext fun p => ?_)
  show ((f p.2).map fun w => (p.1, w)).map (·.2) = f p.2
  rw [Option.map_map]
  exact congrFun Option.map_id _

/-- What is listed of the variables of two sets is the same if it is the
same for each name. -/
theorem filterMap_toList_eq {α : Type} {s t : VariableSet} {f g : Variable → Option α}
    (h : ∀ name, (s.get? name).bind f = (t.get? name).bind g) :
    s.toList.filterMap f = t.toList.filterMap g := by
  rw [VariableSet.toList, VariableSet.toList, ← values_filterMap, ← values_filterMap]
  refine congrArg OrderedMap.values (OrderedMap.ext_get? fun name => ?_)
  rw [OrderedMap.get?_filterMap, OrderedMap.get?_filterMap]
  exact h name

namespace IsRestoredDocument

variable {doc : Document} {final : Registry}

/-- What is listed of the variables of a document and of the model, by
kind and bounds, is the same. -/
theorem filterMap_variables (hd : IsRestoredDocument registry m vars doc final) {α : Type}
    {f g : Variable → Option α}
    (hsame : ∀ v ∈ vars, ∀ w ∈ doc.variableSet, v.name = w.name →
      HasValues (final.attributes w) (writtenAttributes (registry.attributes v)) → f w = g v)
    (hdefault : ∀ v ∈ vars, (registry.attributes v).kind = .real →
      boundsWords? v.name (registry.attributes v).lower (registry.attributes v).upper = none →
        g v = none) :
    doc.variableSet.toList.filterMap f = vars.toList.filterMap g := by
  refine filterMap_toList_eq fun name => ?_
  cases hv : vars.get? name with
  | none =>
      cases hw : doc.variableSet.get? name with
      | none => rfl
      | some w =>
          have hname := doc.variableSet.keyed name w hw
          have hmem : w ∈ doc.variableSet := by
            rw [VariableSet.mem_iff, hname]
            exact hw
          obtain ⟨v, hv', hvname, _⟩ := hd.found w hmem
          rw [VariableSet.mem_iff, hvname, hname, hv] at hv'
          cases hv'
  | some v =>
      have hvname := vars.keyed name v hv
      have hvmem : v ∈ vars := by
        rw [VariableSet.mem_iff, hvname]
        exact hv
      cases hw : doc.variableSet.get? name with
      | some w =>
          have hname := doc.variableSet.keyed name w hw
          have hmem : w ∈ doc.variableSet := by
            rw [VariableSet.mem_iff, hname]
            exact hw
          obtain ⟨v', hv', hv'name, hvalues⟩ := hd.found w hmem
          have heq : v' = v :=
            VariableSet.eq_of_name_eq hv' hvmem (hv'name.trans (hname.trans hvname.symm))
          rw [heq] at hv'name hvalues
          exact hsame v hvmem w hmem hv'name hvalues
      | none =>
          rcases hd.mentioned v hvmem with ⟨w, hmem, hname⟩ | ⟨hkind, hbounds⟩
          · rw [VariableSet.mem_iff, hname, hvname, hw] at hmem
            cases hmem
          · exact (hdefault v hvmem hkind hbounds).symm

/-- A document is written in the text that it was read from. -/
theorem write_eq (hd : IsRestoredDocument registry m vars doc final)
    (h : IsReadableModel registry m vars) :
    write final doc.model doc.variableSet = write registry m vars := by
  have hbounds : boundsWords final doc.variableSet = boundsWords registry vars := by
    refine hd.filterMap_variables (fun v _ w _ hname hvalues => ?_) fun _ _ _ hnone => hnone
    show boundsWords? w.name (final.attributes w).lower (final.attributes w).upper = _
    rw [hvalues.lower, hvalues.upper, ← hname]
    exact boundsWords?_writtenLower _ _ _
  have hkinds : ∀ kind, kind ≠ .real →
      namesOfKind final doc.variableSet kind = namesOfKind registry vars kind := by
    intro kind hkind
    rw [namesOfKind_eq, namesOfKind_eq]
    refine hd.filterMap_variables (fun v _ w _ hname hvalues => ?_) fun v _ hreal _ => ?_
    · rw [hvalues.kind, hname]
      rfl
    · rw [if_neg]
      rw [hreal]
      exact fun heq => hkind heq.symm
  have hconstraints : (doc.model.constraints.map fun c => c.normalize.words)
      = m.constraints.map fun c => c.normalize.words := by
    have hall := hd.constraints
    rw [show (m.constraints.map fun c => c.normalize.words)
      = (m.constraints.map Constraint.normalize).map Constraint.words from by rw [List.map_map]; rfl]
    generalize m.constraints.map Constraint.normalize = cs at hall
    generalize doc.model.constraints = ds at hall
    induction hall with
    | nil => rfl
    | cons hcd _ ih => rw [List.map_cons, List.map_cons, ih, hcd.normal, hcd.words]
  have hsections : Sections.ofModel final doc.model doc.variableSet
      = Sections.ofModel registry m vars := by
    rw [Sections.ofModel, Sections.ofModel, hd.sense, hbounds, hkinds .binary (by decide),
      hkinds .integer (by decide), hconstraints, hd.objective.words_eq h.objective h.objectiveConstant]
  rw [← String.toList_inj, write_toList, write_toList, hsections]

/-! ### Handles -/

/-- Where the constant of the objective is a number, the model of the
document is the model up to handles. -/
theorem isAlike (hd : IsRestoredDocument registry m vars doc final)
    (hconstant : m.objective.term.constant.isNaN = false) : m.IsAlike doc.model := by
  refine ⟨hd.sense.symm, hd.objective.isAlike hconstant, ?_⟩
  have hall := hd.constraints
  rw [List.forall₂_map_left_iff] at hall
  refine hall.imp fun c d hcd => ?_
  rw [hcd.normal]
  exact hcd.alike

theorem known (hd : IsRestoredDocument registry m vars doc final) {v : Variable}
    (hv : doc.model.Occurs v) : v ∈ doc.variableSet := by
  rcases hv with hv | ⟨d, hmem, hv⟩
  · exact hd.objective.known v hv
  · have hall := hd.constraints
    generalize m.constraints.map Constraint.normalize = cs at hall
    generalize doc.model.constraints = ds at hall hmem
    induction hall with
    | nil => cases hmem
    | cons hcd _ ih =>
        rcases List.mem_cons.mp hmem with rfl | hmem
        · exact hcd.known v hv
        · exact ih hmem

/-- Where every variable occurs, the model and the document differ in
their handles only. -/
theorem exists_renaming (hd : IsRestoredDocument registry m vars doc final)
    (h : IsReadableModel registry m vars)
    (hconstant : m.objective.term.constant.isNaN = false) (hoccurs : ∀ v ∈ vars, m.Occurs v) :
    ∃ f, IsRenaming f (· ∈ vars) (· ∈ doc.variableSet) ∧ m.IsImage f doc.model
      ∧ ∀ v ∈ vars, (registry.attributes v).SameDomain (final.attributes (f v)) := by
  have halike := hd.isAlike hconstant
  obtain ⟨f, hf, himage⟩ := halike.exists_renaming
    (fun v w hv hw => VariableSet.eq_of_name_eq (h.occurring v hv) (h.occurring w hw))
    fun v w hv hw => VariableSet.eq_of_name_eq (hd.known hv) (hd.known hw)
  -- The variables of the two sets are those that occur.
  have hdoc : ∀ w ∈ doc.variableSet, doc.model.Occurs w := by
    intro w hw
    obtain ⟨v, hv, hname, _⟩ := hd.found w hw
    obtain ⟨u, hu, huname⟩ := halike.exists_name (hoccurs v hv)
    rwa [← VariableSet.eq_of_name_eq (hd.known hu) hw (huname.trans hname)]
  have hrenaming : IsRenaming f (· ∈ vars) (· ∈ doc.variableSet) := by
    refine ⟨fun v hv => hf.name v (hoccurs v hv),
      fun v w hv hw => hf.injective v w (hoccurs v hv) (hoccurs w hw), fun w => ?_⟩
    constructor
    · intro hw
      obtain ⟨v, hv, heq⟩ := (hf.onto w).mp (hdoc w hw)
      exact ⟨v, h.occurring v hv, heq⟩
    · rintro ⟨v, hv, heq⟩
      exact hd.known ((hf.onto w).mpr ⟨v, hoccurs v hv, heq⟩)
  refine ⟨f, hrenaming, himage, fun v hv => ?_⟩
  obtain ⟨v', hv', hname, hvalues⟩ := hd.found (f v) ((hrenaming.onto _).mpr ⟨v, hv, rfl⟩)
  rw [VariableSet.eq_of_name_eq hv' hv (hname.trans (hrenaming.name v hv))] at hvalues
  have hnumbers := IsPrintableModel.isNaN_of_check (h.valid v hv)
  refine ⟨hvalues.kind.symm, ?_, ?_⟩
  · rw [hvalues.lower]
    show ((registry.attributes v).lower == writtenLower (registry.attributes v).lower) = true
    unfold writtenLower
    split
    · assumption
    · exact Binary64.beq_self (Binary64.code_le_of_isNaN hnumbers.1)
  · rw [hvalues.upper]
    exact Binary64.beq_self (Binary64.code_le_of_isNaN hnumbers.2)

end IsRestoredDocument

end LinearProgram.LpText
