import LinearProgram.Proofs.LpText.Accepted.Documents
import LinearProgram.Proofs.LpText.Expressible.Forms

/-!
# `LinearProgram.Proofs.LpText.Expressible.Models`: which models their text can express

A model with ordinary names and finite numbers is always written, but
not all of it can be read. `read_write_iff` is the exact condition: the
text is read without a problem, as just as many constraints, if and only
if every constraint is expressible.

* `Draft.problems_take`: a problem that is reported stays reported, so
  in a text without problems every statement can be read
  (`exists_read_of_problems_eq_nil`).
* `read_write_asRead`: in the other direction, the text of a model is
  read like that of the model as it is read, which is readable.
* `Model.IsLegible` says what ordinary names and finite numbers are.
-/

set_option autoImplicit false

namespace LinearProgram

open LpText (IsPlainName isName isKeyword)

/-- Whether a model has ordinary names and finite numbers. Names of
variables are neither words for infinity nor keywords, and all names
have the form of a name. The variables are as they were when the
constraints were made: their bounds suit their kinds, and those in
guards are binary. -/
structure Model.IsLegible (registry : Registry) (m : Model) : Prop where
  name : ∀ v, m.Occurs v → IsPlainName v.name
  keyword : ∀ v, m.Occurs v → isKeyword v.name.toList = false
  label : ∀ c ∈ m.constraints, ∀ name ∈ c.names, isName name.toList = true
  valid : ∀ v, m.Occurs v → registry.validate v = .ok ()
  indicator : ∀ c ∈ m.constraints, ∀ guard, c.guard = some guard →
    guard.isIndicator registry = true
  finiteObjective : m.objective.term.IsFinite
  finite : ∀ c ∈ m.constraints, c.term.IsFinite
  /-- Bounds are finite when the constant of the term has been moved there. -/
  bounds : ∀ c ∈ m.constraints,
    (c.shape.normalize c.term.constant).ForBounds fun x => x.isFinite = true

namespace LpText

/-! ### Problems stay -/

namespace Draft

theorem problems_report (d : Draft) (line : Nat) (error : ReadError Float) :
    d.problems <+: (d.report line error).problems := List.prefix_append ..

theorem problems_attempt {α : Type} (d : Draft) (line : Nat) (reading : Reading Float α)
    {keep : Draft → α → Draft} (hkeep : ∀ d a, (keep d a).problems = d.problems) :
    d.problems <+: (d.attempt line reading keep).problems := by
  rw [attempt]
  split
  · simp only [hkeep, List.prefix_rfl]
  · exact problems_report ..

theorem problems_declareWord (kind : Kind) (line : Nat) (d : Draft) (word : List Char) :
    d.problems <+: (d.declareWord kind line word).problems := by
  unfold declareWord
  split
  · dsimp only
    split
    · split
      · exact List.prefix_rfl
      · exact problems_report _ line _
    · exact List.prefix_rfl
  · exact problems_report d line _

theorem problems_declareWords (d : Draft) (kind : Kind) (s : Numbered) :
    d.problems <+: (d.declareWords kind s).problems := by
  unfold declareWords
  generalize Text.words s.text = ws
  induction ws generalizing d with
  | nil => exact List.prefix_rfl
  | cons w ws ih => exact (problems_declareWord kind s.line d w).trans (ih _)

/-- What has been reported stays reported. -/
theorem problems_take (d : Draft) (item : Item) : d.problems <+: (d.take item).problems := by
  cases item with
  | opening opened => cases opened <;> exact List.prefix_rfl
  | statement place s =>
      cases place with
      | preamble => exact problems_report ..
      | closed => exact problems_report ..
      | binary => exact problems_declareWords ..
      | general => exact problems_declareWords ..
      | bounds => exact problems_attempt _ _ _ fun _ _ => rfl
      | objective sense => exact problems_attempt _ _ _ fun _ _ => rfl
      | constraints => exact problems_attempt _ _ _ fun _ _ => rfl

theorem problems_foldl_take (items : List Item) (d : Draft) :
    d.problems <+: (items.foldl take d).problems := by
  induction items generalizing d with
  | nil => exact List.prefix_rfl
  | cons item items ih => exact (problems_take d item).trans (ih _)

end Draft

/-- In a text without problems every constraint can be read. -/
theorem exists_read_of_problems_eq_nil {registry : Registry} {text : String}
    (h : (read registry text).1.problems = []) {statement : Numbered}
    (hmem : .statement .constraints statement ∈ items text.toList) :
    ∃ s c s', constraintStatement statement s = (.ok c, s') := by
  obtain ⟨_, hread, _⟩ := read_spec registry text
  rw [hread] at h
  have hnone := (List.append_eq_nil_iff.mp h).1
  obtain ⟨before, after, heq⟩ := List.append_of_mem hmem
  rw [Draft.ofText, heq, List.foldl_append, List.foldl_cons] at hnone
  -- A problem with the statement would still be there in the end.
  generalize before.foldl Draft.take (.start registry) = d at hnone
  have hstep := Draft.problems_foldl_take after (d.take (.statement .constraints statement))
  rw [hnone, List.prefix_nil, Draft.take, Draft.takeStatement, Draft.attempt] at hstep
  split at hstep
  · rename_i c s' hread
    exact ⟨d.symbols, c, s', hread⟩
  · exact absurd hstep (List.append_ne_nil_of_right_ne_nil _ (List.cons_ne_nil _ _))

theorem exists_statement {place : Section} {first : Nat} {texts : List (List Char)}
    {text : List Char} (h : text ∈ texts) :
    ∃ line, .statement place ⟨line, text⟩ ∈ statements place first texts := by
  induction texts generalizing first with
  | nil => cases h
  | cons t texts ih =>
      rcases List.mem_cons.mp h with rfl | h
      · exact ⟨first, List.mem_cons_self ..⟩
      · obtain ⟨line, hline⟩ := @ih (first + 1) h
        exact ⟨line, List.mem_cons_of_mem _ hline⟩

/-- Of a text that is read without a problem, every constraint is
expressible. -/
theorem isExpressible_of_problems_eq_nil {registry other : Registry} {m : Model}
    {vars : VariableSet} (h : IsPrintableModel registry m vars)
    (hread : (read other (write registry m vars)).1.problems = []) :
    ∀ c ∈ m.constraints, c.normalize.IsExpressible := by
  intro c hc
  have hstatement : joined c.normalize.words
      ∈ (Sections.ofModel registry m vars).constraints.map joined :=
    List.mem_map_of_mem (List.mem_map_of_mem hc)
  obtain ⟨line, hline⟩ := @exists_statement .constraints 4 _ _ hstatement
  have hmem : .statement .constraints ⟨line, joined c.normalize.words⟩
      ∈ items (write registry m vars).toList := by
    rw [write_toList, Sections.items_lines h.isSeparate_ofModel, Sections.items]
    simp only [List.mem_cons, List.mem_append, hline, true_or, or_true]
  obtain ⟨s, d, s', hd⟩ := exists_read_of_problems_eq_nil hread hmem
  exact isExpressible_of_read (h.constraints c hc) hd

/-! ### Two texts, one document -/

/-- Statements that the reader cannot tell apart lead to one draft. -/
theorem foldl_statements_congr {α : Type} {place : Section} {f g : α → List Char} {l : List α}
    (h : ∀ a ∈ l, ∀ line (d : Draft),
      d.takeStatement place ⟨line, f a⟩ = d.takeStatement place ⟨line, g a⟩)
    (first : Nat) (d : Draft) :
    (statements place first (l.map f)).foldl Draft.take d
      = (statements place first (l.map g)).foldl Draft.take d := by
  induction l generalizing first d with
  | nil => rfl
  | cons a l ih =>
      have hstep := h a (List.mem_cons_self ..) first d
      show (statements place (first + 1) (l.map f)).foldl Draft.take
        (d.takeStatement place ⟨first, f a⟩) = _
      rw [ih (fun b hb => h b (List.mem_cons_of_mem _ hb)), hstep]
      rfl

theorem Constraint.normalize_asRead (c : Constraint Float) :
    c.normalize.asRead.normalize = c.normalize.asRead := by
  have hshape : ∀ (shape : Shape Float) (offset : Float),
      ((shape.normalize offset).mapBounds writtenConstant).normalize 0
        = (shape.normalize offset).mapBounds writtenConstant := by
    intro shape offset
    cases shape <;> simp only [Shape.normalize, Shape.mapBounds, Binary64.sub_zero]
  cases c with
  | plain row =>
      show Constraint.plain ⟨Shape.normalize 0 _, _, _⟩ = .plain ⟨_, _, _⟩
      rw [hshape]
      rfl
  | guarded g row =>
      show Constraint.guarded _ ⟨Shape.normalize 0 _, _, _⟩ = .guarded _ ⟨_, _, _⟩
      rw [hshape]
      rfl

/-- The text of a model and that of the model as it is read are read as
one document. -/
theorem read_write_asRead {registry other : Registry} {m : Model} {vars : VariableSet}
    (h : IsPrintableModel registry m vars) (h' : IsPrintableModel registry m.asRead vars)
    (hexpressible : ∀ c ∈ m.constraints, c.normalize.IsExpressible) :
    read other (write registry m.asRead vars) = read other (write registry m vars) := by
  have hlength : (Sections.ofModel registry m.asRead vars).constraints.length
      = (Sections.ofModel registry m vars).constraints.length := by
    simp [Sections.ofModel, Model.asRead]
  have hobjective : ∀ d : Draft,
      d.take (.statement (.objective m.objective.sense)
          ⟨2, joined (Sections.ofModel registry m.asRead vars).objective⟩)
        = d.take (.statement (.objective m.objective.sense)
          ⟨2, joined (Sections.ofModel registry m vars).objective⟩) := by
    intro d
    have hsame := objectiveTerm_asRead h.objective
    rw [Draft.take, Draft.take, Draft.takeStatement, Draft.takeStatement]
    dsimp only [Sections.ofModel]
    rw [← hsame]
    rfl
  have hconstraints : ∀ c ∈ m.constraints, ∀ line (d : Draft),
      d.takeStatement .constraints ⟨line, joined c.normalize.asRead.normalize.words⟩
        = d.takeStatement .constraints ⟨line, joined c.normalize.words⟩ := by
    intro c hc line d
    rw [Draft.takeStatement, Draft.takeStatement, Constraint.normalize_asRead,
      constraintStatement_asRead (h.constraints c hc) (hexpressible c hc)]
  have hsame : ∀ d, (statements .constraints 4
        ((Sections.ofModel registry m.asRead vars).constraints.map joined)).foldl Draft.take d
      = (statements .constraints 4
        ((Sections.ofModel registry m vars).constraints.map joined)).foldl Draft.take d := by
    intro d
    have hcongr := foldl_statements_congr hconstraints 4 d
    simp only [Sections.ofModel, Model.asRead, List.map_map, Function.comp_def]
    exact hcongr
  have hitems : (Sections.ofModel registry m.asRead vars).items.foldl Draft.take (.start other)
      = (Sections.ofModel registry m vars).items.foldl Draft.take (.start other) := by
    rw [Sections.foldl_items (Sections.ofModel registry m.asRead vars) (hobjective _) rfl rfl rfl
        rfl,
      Sections.foldl_items (Sections.ofModel registry m vars) rfl rfl rfl rfl rfl, hlength, hsame]
    rfl
  rw [read, read, write_toList, write_toList, Sections.items_lines h.isSeparate_ofModel,
    Sections.items_lines h'.isSeparate_ofModel, hitems]

/-! ### Legible models -/

theorem isPrintableRow_of_switch {row : Row Float} {value : Float} {v : Variable}
    (hvalue : Constraint.switchValue? row.shape = some value)
    (hv : Constraint.loneVariable? row.term = some v) (hname : IsPlainName v.name)
    (hlabel : ∀ n, row.name = some n → isName n.toList = true) : IsPrintableRow row := by
  obtain ⟨hshape, _, hnumber⟩ := of_switchValue? hvalue
  refine ⟨fun bound relation heq => ?_, ?_, isReadableTerm_of_loneVariable? hv hname, hlabel⟩
  · rw [hshape] at heq
    cases heq
  · rw [hshape]
    exact hnumber

/-- A guard is written in words, whatever guards it has. -/
theorem isPrintable_of_isSwitch {g : Constraint Float} (hbuilt : g.IsBuilt) (hswitch : g.IsSwitch)
    (hname : ∀ v, g.Occurs v → IsPlainName v.name)
    (hlabel : ∀ n ∈ g.names, isName n.toList = true) : IsPrintable g := by
  have hoccurs : ∀ {t : Term Float} {v : Variable}, Constraint.loneVariable? t = some v →
      v ∈ t.occurring := by
    intro t v hv
    rw [occurring_of_loneVariable? hv]
    exact List.mem_singleton_self v
  induction g with
  | plain row =>
      obtain ⟨⟨value, hvalue⟩, v, hv⟩ := hswitch
      exact isPrintableRow_of_switch hvalue hv (hname v (hoccurs hv)) fun n hn =>
        hlabel n (Option.mem_toList.mpr hn)
  | guarded g row ih =>
      obtain ⟨⟨value, hvalue⟩, v, hv⟩ := hswitch
      refine ⟨ih hbuilt.1 hbuilt.2.1 (fun w hw => hname w (.inr hw)) fun n hn =>
        hlabel n (List.mem_append_right _ hn), ?_⟩
      exact isPrintableRow_of_switch hvalue hv (hname v (.inl (hoccurs hv))) fun n hn =>
        hlabel n (List.mem_append_left _ (Option.mem_toList.mpr hn))

theorem hasNumbers_of_isFinite {shape : Shape Float}
    (h : shape.ForBounds fun x => x.isFinite = true) : HasNumbers shape := by
  cases shape with
  | left bound relation => exact Binary64.isNaN_of_isFinite h
  | right relation bound => exact Binary64.isNaN_of_isFinite h
  | equal bound => exact Binary64.isNaN_of_isFinite h
  | range lower l r upper =>
      exact ⟨Binary64.isNaN_of_isFinite h.1, Binary64.isNaN_of_isFinite h.2⟩

variable {registry : Registry} {m : Model} {vars : VariableSet}

theorem hasDistinctNames_of_subset {t : Term Float} (h : ∀ v ∈ t.occurring, v ∈ vars) :
    t.HasDistinctNames := fun v hv w hw => VariableSet.eq_of_name_eq (h v hv) (h w hw)

/-- A constraint of a legible model is written in words. -/
theorem isPrintable_normalize (hbuilt : ∀ c ∈ m.constraints, c.IsBuilt)
    (hvars : m.variableSet = .ok vars) (h : m.IsLegible registry) {c : Constraint Float}
    (hc : c ∈ m.constraints) : IsPrintable c.normalize := by
  have hname : ∀ v, c.Occurs v → IsPlainName v.name := fun v hv => h.name v (.inr ⟨c, hc, hv⟩)
  have hterm : ∀ v ∈ c.term.occurring, v ∈ vars := fun v hv =>
    (Model.mem_variableSet_iff hvars v).mpr (.inr ⟨c, hc, .inl hv⟩)
  have hrow : ∀ name, (∀ n, name = some n → isName n.toList = true) → IsPrintableRow
      ⟨c.shape.normalize c.term.constant, c.term.setConstant 0, name⟩ := by
    intro name hlabel
    refine ⟨fun bound relation heq => ?_, hasNumbers_of_isFinite (h.bounds c hc), ?_, hlabel⟩
    · cases hshape : c.shape <;> rw [hshape] at heq <;> cases heq
    · have hzero : (0 : Float).isFinite = true := by decide
      exact isReadableTerm_of_isFinite ⟨(h.finite c hc).1, hzero⟩
        (fun v hv => hname v (Constraint.occurs_of_mem_term hv)) (hasDistinctNames_of_subset hterm)
  have hlabel := h.label c hc
  have hb := hbuilt c hc
  cases c with
  | plain row => exact hrow row.name fun n hn => hlabel n (Option.mem_toList.mpr hn)
  | guarded g row =>
      refine ⟨isPrintable_of_isSwitch hb.1 hb.2.1 (fun v hv => hname v (.inr hv)) fun n hn =>
        hlabel n (List.mem_append_right _ hn), ?_⟩
      exact hrow row.name fun n hn =>
        hlabel n (List.mem_append_left _ (Option.mem_toList.mpr hn))

/-- A legible model is written in lines that stay apart. -/
theorem isPrintableModel_of_isLegible (hbuilt : ∀ c ∈ m.constraints, c.IsBuilt)
    (hvars : m.variableSet = .ok vars) (h : m.IsLegible registry) :
    IsPrintableModel registry m vars := by
  have hoccurs : ∀ v ∈ vars, m.Occurs v := fun v hv =>
    ((Model.mem_variableSet_iff hvars v).mp hv).occurs
  refine ⟨?_, fun v hv _ => h.keyword v (.inl hv), fun c => isPrintable_normalize hbuilt hvars h,
    fun v hv => h.valid v (hoccurs v hv), fun v hv => (h.name v (hoccurs v hv)).1,
    fun v hv _ => h.name v (hoccurs v hv), fun v hv _ => h.keyword v (hoccurs v hv)⟩
  exact isReadableTerm_of_isFinite h.finiteObjective (fun v hv => h.name v (.inl hv))
    (hasDistinctNames_of_subset fun v hv => (Model.mem_variableSet_iff hvars v).mpr (.inl hv))

/-! ### Expressible models -/

theorem isReadableShape_mapBounds {shape : Shape Float} (hbuilt : shape.IsBuilt)
    (hfirst : ∀ bound relation, shape ≠ .left bound relation) (h : HasNumbers shape) :
    IsReadableShape (shape.mapBounds writtenConstant) := by
  cases shape with
  | left bound relation => exact absurd rfl (hfirst bound relation)
  | right relation bound => exact ⟨hbuilt, isReadableBound_writtenConstant h⟩
  | equal bound => exact isReadableBound_writtenConstant h
  | range lower l r upper =>
      exact ⟨hbuilt, isReadableBound_writtenConstant h.1, isReadableBound_writtenConstant h.2⟩

theorem isRange_mapBounds {shape : Shape Float} (h : IsRange shape) (f : Float → Float) :
    IsRange (shape.mapBounds f) := by
  cases shape with
  | left bound relation => cases h
  | right relation bound => cases h
  | equal bound => cases h
  | range lower l r upper => trivial

/-- What is expressible of a row in normal form can be read. -/
theorem isReadableRow_asRead {row : Row Float} (h : IsPrintableRow row)
    (hbuilt : row.shape.IsBuilt) (hzero : row.term.constant = 0)
    (hvaries : row.term.isConstant = true → IsRange row.shape) {name : Option String}
    (hname : ∀ n, name = some n → IsPlainName n) :
    IsReadableRow ⟨row.shape.mapBounds writtenConstant, row.term, name⟩ := by
  refine ⟨isReadableShape_mapBounds hbuilt h.termFirst h.numbers, h.term, ?_, fun hconstant =>
    ⟨isRange_mapBounds (hvaries hconstant) _, hzero⟩, hname⟩
  rw [hzero]
  decide

/-- A guard can be read without its name and the sign of a zero. -/
theorem isReadableGuard_asRead {g : Constraint Float} (h : g.isIndicator registry = true)
    (hname : ∀ v ∈ g.term.occurring, IsPlainName v.name) :
    IsReadableGuard registry (.plain ⟨g.shape.mapBounds writtenConstant, g.term, none⟩) := by
  obtain ⟨value, v, hvalue, hv, hkind⟩ := exists_of_isIndicator h
  obtain ⟨hshape, hswitch, _⟩ := of_switchValue? hvalue
  have hshape' : g.shape.mapBounds writtenConstant = .equal (writtenConstant value) := by
    rw [hshape]
    rfl
  have hswitch' : Constraint.switchValue? (.equal (writtenConstant value))
      = some (writtenConstant value) := by
    rcases hswitch with hzero | rfl
    · rw [writtenConstant_of_beq_zero hzero]
      rfl
    · rfl
  refine isReadableGuard_of_isPortable ⟨rfl, rfl, ?_, fun heq => ?_⟩ hname
  · rw [hshape']
    exact isIndicator_of_parts hswitch' hv hkind
  · exact writtenConstant_ne value (Shape.equal.inj (hshape'.symm.trans heq))

/-- An expressible constraint of a legible model can be read. -/
theorem isReadableConstraint_asRead (hbuilt : ∀ c ∈ m.constraints, c.IsBuilt)
    (hvars : m.variableSet = .ok vars) (h : m.IsLegible registry) {c : Constraint Float}
    (hc : c ∈ m.constraints) (hexpressible : c.normalize.IsExpressible) :
    IsReadableConstraint registry c.normalize.asRead := by
  have hprintable := isPrintable_normalize hbuilt hvars h hc
  have hshape := (hbuilt c hc).normalize.shape
  have hindicator := h.indicator c hc
  have hname : ∀ v, c.Occurs v → IsPlainName v.name := fun v hv => h.name v (.inr ⟨c, hc, hv⟩)
  cases c with
  | plain row =>
      exact isReadableRow_asRead hprintable hshape rfl hexpressible.varies fun n hn =>
        hexpressible.plain n (Option.mem_toList.mpr hn)
  | guarded g row =>
      cases g with
      | guarded g' grow =>
          exact absurd hexpressible.depth (by simp [Constraint.normalize, Constraint.mapRow,
            Constraint.depth])
      | plain grow =>
          exact ⟨isReadableGuard_asRead (hindicator _ rfl) fun v hv => hname v (.inr hv),
            isReadableRow_asRead hprintable.2 hshape rfl hexpressible.varies
              (isPlainName_or hexpressible)⟩

theorem occursShallow_of_asRead {c : Constraint Float} {v : Variable} (h : c.asRead.Occurs v) :
    c.OccursShallow v := by
  cases c with
  | plain row => exact .inl h
  | guarded g row =>
      rcases h with h | h
      · exact .inl h
      · exact .inr ⟨g, rfl, h⟩

/-- What is read of a legible model can be read if all of it is
expressible. -/
theorem isReadableModel_asRead (hbuilt : ∀ c ∈ m.constraints, c.IsBuilt)
    (hvars : m.variableSet = .ok vars) (h : m.IsLegible registry)
    (hexpressible : ∀ c ∈ m.constraints, c.normalize.IsExpressible) :
    IsReadableModel registry m.asRead vars := by
  have hprintable := isPrintableModel_of_isLegible hbuilt hvars h
  refine ⟨?_, fun _ => writtenConstant_ne _, fun v hv _ => h.keyword v (.inl hv), fun c hc => ?_,
    fun v hv => ?_, hprintable.valid, hprintable.name, hprintable.boundsName, hprintable.keyword⟩
  · exact ⟨hprintable.objective.summand, hprintable.objective.distinct, fun hconstant =>
      isNaN_writtenConstant (hprintable.objective.constant hconstant)⟩
  · obtain ⟨d, hd, rfl⟩ := List.mem_map.mp hc
    rw [Constraint.normalize_asRead]
    exact isReadableConstraint_asRead hbuilt hvars h hd (hexpressible d hd)
  · refine (Model.mem_variableSet_iff hvars v).mpr ?_
    rcases hv with hv | ⟨c, hc, hv⟩
    · exact .inl hv
    · obtain ⟨d, hd, rfl⟩ := List.mem_map.mp hc
      exact .inr ⟨d, hd, Constraint.occursShallow_normalize.mp (occursShallow_of_asRead hv)⟩

theorem isExpressible_normalize {c : Constraint Float} :
    c.normalize.IsExpressible ↔ c.IsExpressible := by
  have hrange : ∀ (shape : Shape Float) (offset : Float),
      IsRange (shape.normalize offset) ↔ IsRange shape := by
    intro shape offset
    cases shape <;> exact Iff.rfl
  cases c with
  | plain row =>
      exact ⟨fun h => ⟨fun hc => (hrange _ _).mp (h.varies hc), h.depth, h.names, h.plain⟩,
        fun h => ⟨fun hc => (hrange _ _).mpr (h.varies hc), h.depth, h.names, h.plain⟩⟩
  | guarded g row =>
      exact ⟨fun h => ⟨fun hc => (hrange _ _).mp (h.varies hc), h.depth, h.names, h.plain⟩,
        fun h => ⟨fun hc => (hrange _ _).mpr (h.varies hc), h.depth, h.names, h.plain⟩⟩

/-- The text of a legible model is read without a problem, as just as
many constraints, if and only if every constraint is expressible. -/
theorem read_write_iff (hbuilt : ∀ c ∈ m.constraints, c.IsBuilt)
    (hvars : m.variableSet = .ok vars) (h : m.IsLegible registry) (other : Registry) :
    ((read other (write registry m vars)).1.problems = []
        ∧ (read other (write registry m vars)).1.model.constraints.length = m.constraints.length)
      ↔ ∀ c ∈ m.constraints, c.IsExpressible := by
  have hprintable := isPrintableModel_of_isLegible hbuilt hvars h
  constructor
  · intro hread c hc
    exact isExpressible_normalize.mp (isExpressible_of_problems_eq_nil hprintable hread.1 c hc)
  · intro hexpressible
    have hexpressible : ∀ c ∈ m.constraints, c.normalize.IsExpressible := fun c hc =>
      isExpressible_normalize.mpr (hexpressible c hc)
    have hreadable := isReadableModel_asRead hbuilt hvars h hexpressible
    obtain ⟨doc, final, hread, hd⟩ := read_write hreadable other
    have hlength := hd.constraints.length_eq
    rw [← read_write_asRead hprintable hreadable.isPrintable hexpressible, hread]
    refine ⟨hd.problems, ?_⟩
    rw [← hlength, List.length_map, Model.asRead, List.length_map]

end LpText

end LinearProgram
