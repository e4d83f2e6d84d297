import LinearProgram.Proofs.LpText.Reading.Bounds
import LinearProgram.Proofs.LpText.Reading.Constraints

/-!
# `LinearProgram.Proofs.LpText.Reading.Lines`: the lines of a written model stay apart

A line of a written model is taken for what it is: it is no header, and
it neither ends with an operator nor begins with a relation, so that no
line continues another one.

* `IsPrintable` says of a constraint, with guards to any depth, that it
  is written in words. `IsApart` is what a line has to be, and
  `isApart_constraintWords` that such a constraint is.
* `IsPrintableModel` says the same of a model and its variables, and
  `isSeparate_ofModel` that its lines stay apart. Its conditions on
  names in front of nothing or of `FREE` are the ones that keep a line
  from being a header.
* `IsReadableModel` says that the model can also be read back.
-/

set_option autoImplicit false

namespace LinearProgram.LpText

open Decimal (plain)
open Text (spaced IsWord)

/-! ### The ends of a line -/

/-- Whether the last character of a word is no operator. -/
def EndsPlainly (w : List Char) : Prop := ∀ c, w.getLast? = some c → isOperator c = false

instance (w : List Char) : Decidable (EndsPlainly w) :=
  decidable_of_iff (w.getLast?.all (fun c => !isOperator c) = true) (by
    rw [Option.all_eq_true]
    simp only [Bool.not_eq_true', EndsPlainly])

theorem endsPlainly_of_all {w : List Char} (h : ∀ c ∈ w, isOperator c = false) : EndsPlainly w :=
  fun c hc => h c (List.mem_of_getLast? hc)

theorem endsPlainly_name {name : String} (h : isName name.toList = true) :
    EndsPlainly name.toList :=
  endsPlainly_of_all fun c hc => (isNameChar_plain (isNameChar_of_isName h c hc)).2.1

theorem endsPlainly_plain {x : Float} (h : x.isNaN = false) : EndsPlainly (plain x).toList := by
  have hunsigned : EndsPlainly (Decimal.unsignedText (Binary64.code x)) := by
    by_cases hinf : Binary64.code x = Binary64.infinityCode
    · rw [Decimal.unsignedText, if_pos hinf]
      decide
    · obtain ⟨_, hall⟩ := Decimal.numeral_unsignedText hinf
      exact endsPlainly_of_all fun c hc => (isNumeral_plain (hall c hc)).2.2.1
  rw [Decimal.plain_toList h]
  split
  · intro c hc
    have hne := Decimal.unsignedText_ne_nil (Binary64.code x)
    rw [List.getLast?_cons_of_ne_nil hne] at hc
    exact hunsigned c hc
  · exact hunsigned

/-- The first word of a line begins with no relation. -/
def IsLeading : List (List Char) → Prop
  | [] => False
  | w :: _ => w ≠ [] ∧ startsWithRelation w = false

/-- The last word of a line ends with no operator. -/
def IsTrailing (ws : List (List Char)) : Prop :=
  ∃ front w, ws = front ++ [w] ∧ w ≠ [] ∧ EndsPlainly w

theorem IsLeading.append {ws : List (List Char)} (h : IsLeading ws) (vs : List (List Char)) :
    IsLeading (ws ++ vs) := by
  cases ws with
  | nil => cases h
  | cons w ws => exact h

theorem IsTrailing.prepend {ws : List (List Char)} (h : IsTrailing ws) (vs : List (List Char)) :
    IsTrailing (vs ++ ws) := by
  obtain ⟨front, w, rfl, hw⟩ := h
  exact ⟨vs ++ front, w, (List.append_assoc ..).symm, hw⟩

theorem startsWithRelation_joined {ws : List (List Char)} (h : IsLeading ws) :
    startsWithRelation (joined ws) = false := by
  cases ws with
  | nil => cases h
  | cons w ws =>
      cases w with
      | nil => exact absurd rfl h.1
      | cons c w => exact h.2

theorem endsWithOperator_joined {ws : List (List Char)} (h : IsTrailing ws) :
    endsWithOperator (joined ws) = false := by
  obtain ⟨front, w, rfl, hne, hends⟩ := h
  have hlast : ∃ before, joined (front ++ [w]) = before ++ w := by
    cases front with
    | nil => exact ⟨[], List.append_nil w⟩
    | cons v front =>
        refine ⟨v ++ spaced front ++ [' '], ?_⟩
        show v ++ spaced (front ++ [w]) = _
        simp
  obtain ⟨before, hbefore⟩ := hlast
  have hgetLast : (joined (front ++ [w])).getLast? = w.getLast? := by
    rw [hbefore, List.getLast?_append, List.getLast?_eq_some_getLast hne]
    rfl
  rw [endsWithOperator, hgetLast]
  cases hc : w.getLast? with
  | none => rfl
  | some c => exact hends c hc

/-- What a line has to be so that it stands for itself. -/
structure IsApart (ws : List (List Char)) : Prop where
  word : ∀ w ∈ ws, IsPlainWord w
  header : header? (joined ws) = none
  leading : IsLeading ws
  trailing : IsTrailing ws

theorem IsApart.isStatement {ws : List (List Char)} (h : IsApart ws) : IsStatement ws := by
  refine ⟨?_, h.word⟩
  rintro rfl
  exact h.leading

/-! ### Constraints -/

theorem isLeading_of_forall {ws : List (List Char)} (hne : ws ≠ [])
    (h : ∀ w ∈ ws, w ≠ [] ∧ startsWithRelation w = false) : IsLeading ws := by
  cases ws with
  | nil => exact absurd rfl hne
  | cons w ws => exact h w (List.mem_cons_self ..)

theorem startsWithRelation_name {name : String} (h : isName name.toList = true) :
    name.toList ≠ [] ∧ startsWithRelation name.toList = false := by
  obtain ⟨c, w, hcons, hstart, _⟩ := isName_cons h
  rw [hcons]
  refine ⟨List.cons_ne_nil _ _, ?_⟩
  rw [← Bool.not_eq_true, startsWithRelation, List.contains_iff_mem]
  intro hmem
  simp only [List.mem_cons, List.not_mem_nil, or_false] at hmem
  rcases hmem with rfl | rfl | rfl <;> exact absurd hstart (by decide)

theorem startsWithRelation_plain (x : Float) :
    (plain x).toList ≠ [] ∧ startsWithRelation (plain x).toList = false := by
  have hunsigned : ∀ c, startsWithRelation (Decimal.unsignedText c) = false := by
    intro c
    by_cases hinf : c = Binary64.infinityCode
    · rw [Decimal.unsignedText, if_pos hinf]
      decide
    · obtain ⟨⟨d, w, hcons, hdigit⟩, _⟩ := Decimal.numeral_unsignedText hinf
      rw [hcons, ← Bool.not_eq_true, startsWithRelation, List.contains_iff_mem]
      intro hmem
      simp only [List.mem_cons, List.not_mem_nil, or_false] at hmem
      rcases hmem with rfl | rfl | rfl <;> exact absurd hdigit (by decide)
  refine ⟨(isWord_plain x).1, ?_⟩
  cases hnan : x.isNaN with
  | true =>
      have htext : plain x = "NaN" := by
        rw [plain, Decimal.signed]
        exact if_pos (Binary64.isNaN_iff.mp hnan)
      rw [htext]
      decide
  | false =>
      rw [Decimal.plain_toList hnan]
      split
      · rfl
      · exact hunsigned _

theorem isNamed_of_readable {t : Term Float} (h : IsReadableTerm t) : t.IsNamed := by
  intro v hv
  obtain ⟨c, hc⟩ := Term.mem_occurring.mp hv
  exact (h.summand v c hc).name.1

theorem isLeading_termWords {t : Term Float} (h : IsReadableTerm t) : IsLeading t.words := by
  refine isLeading_of_forall (entryWords_ne_nil _ _) ?_
  refine Term.forall_entryWords (Q := fun _ => True) (fun _ _ => trivial)
    (fun x _ => startsWithRelation_plain x) (fun w _ => ⟨List.cons_ne_nil _ _, rfl⟩)
    (by decide) (by decide) trivial fun p hp => ⟨trivial, ?_⟩
  exact startsWithRelation_name (h.entries.1 p hp).name.1

/-- Whether a row is written in words that a line can be made of. Its
bounds may be any numbers, and its name may be a word for infinity. -/
structure IsPrintableRow (row : Row Float) : Prop where
  termFirst : ∀ bound relation, row.shape ≠ .left bound relation
  numbers : HasNumbers row.shape
  term : IsReadableTerm row.term
  name : ∀ name, row.name = some name → isName name.toList = true

/-- Whether a constraint is written in words that a line can be made of,
whatever guards it has. -/
def IsPrintable : Constraint Float → Prop
  | .plain row => IsPrintableRow row
  | .guarded g row => IsPrintable g ∧ IsPrintableRow row

theorem IsReadableRow.isPrintable {row : Row Float} (h : IsReadableRow row) :
    IsPrintableRow row := by
  refine ⟨fun bound relation heq => ?_, h.shape.hasNumbers, h.term, fun n hn => (h.name n hn).1⟩
  have hshape := h.shape
  rw [heq] at hshape
  exact hshape

theorem IsReadableConstraint.isPrintable {registry : Registry} {c : Constraint Float}
    (h : IsReadableConstraint registry c) : IsPrintable c := by
  cases c with
  | plain row => exact IsReadableRow.isPrintable h
  | guarded g row =>
      obtain ⟨⟨⟨grow, rfl, _, hgrow⟩, _⟩, h⟩ := h
      exact ⟨hgrow.isPrintable, h.isPrintable⟩

theorem IsPrintable.isNamed {c : Constraint Float} (h : IsPrintable c) : c.IsNamed := by
  have hrow : ∀ {row : Row Float}, IsPrintableRow row →
      row.term.IsNamed ∧ ∀ name, row.name = some name → isName name.toList = true :=
    fun hr => ⟨isNamed_of_readable hr.term, hr.name⟩
  induction c with
  | plain row => exact hrow h
  | guarded g row ih => exact ⟨ih h.1, hrow h.2⟩

/-- The words of a relation. -/
theorem isApart_shapeWords {row : Row Float} (h : IsPrintableRow row) :
    IsNoHeader (row.shape.words row.term.words) ∧ row.shape.words row.term.words ≠ []
      ∧ IsLeading (row.shape.words row.term.words)
      ∧ IsTrailing (row.shape.words row.term.words) := by
  have hleading := isLeading_termWords h.term
  have hnoHeader : ∀ {v : List Char} {c : Char}, v.head? = some c → isOperator c = true →
      ∀ vs, IsNoHeader (row.term.words ++ v :: vs) := fun hv hc vs =>
    isNoHeader_entryWords h.term.entries.2 h.term.entries.1 hv hc vs
  have htrailing : ∀ (front : List (List Char)) {x : Float}, x.isNaN = false →
      IsTrailing (front ++ [(plain x).toList]) := fun front x hx =>
    ⟨front, _, rfl, (isWord_plain x).1, endsPlainly_plain hx⟩
  have hnumbers := h.numbers
  cases heq : row.shape with
  | left bound relation => exact absurd heq (h.termFirst bound relation)
  | right relation bound =>
      rw [heq] at hnumbers
      refine ⟨?_, List.append_ne_nil_of_right_ne_nil _ (List.cons_ne_nil _ _), hleading.append _, ?_⟩
      · cases relation with
        | atMost => exact hnoHeader (c := '<') rfl (by decide) _
        | equal => exact hnoHeader (c := '=') rfl (by decide) _
        | atLeast => exact hnoHeader (c := '>') rfl (by decide) _
      · have hends := htrailing (row.term.words ++ [relation.text.toList]) hnumbers
        rwa [List.append_assoc] at hends
  | equal bound =>
      rw [heq] at hnumbers
      refine ⟨hnoHeader (c := '=') rfl (by decide) _,
        List.append_ne_nil_of_right_ne_nil _ (List.cons_ne_nil _ _), hleading.append _, ?_⟩
      have hends := htrailing (row.term.words ++ [['=']]) hnumbers
      rwa [List.append_assoc] at hends
  | range lower l r upper =>
      rw [heq] at hnumbers
      obtain ⟨hlower, hupper⟩ := hnumbers
      refine ⟨isNoHeader_of_first (beginsNoHeader_plain hlower) _, List.cons_ne_nil _ _,
        startsWithRelation_plain lower, ?_⟩
      have hends := htrailing ((plain lower).toList :: l.text.toList :: row.term.words
        ++ [r.text.toList]) hupper
      rwa [List.append_assoc] at hends

/-- A name in front of a line begins no header and no relation. -/
theorem nameWords_append {name : Option String}
    (hname : ∀ n, name = some n → isName n.toList = true) {ws : List (List Char)}
    (hheader : IsNoHeader ws) (hleading : IsLeading ws) :
    IsNoHeader (Constraint.nameWords name ++ ws) ∧ IsLeading (Constraint.nameWords name ++ ws) := by
  cases name with
  | none => exact ⟨hheader, hleading⟩
  | some n =>
      refine ⟨isNoHeader_of_first (beginsNoHeader_label _) _, ?_⟩
      obtain ⟨c, w, hcons, _⟩ := isName_cons (hname n rfl)
      have hstarts := startsWithRelation_name (hname n rfl)
      show n.toList ++ [':'] ≠ [] ∧ startsWithRelation (n.toList ++ [':']) = false
      rw [hcons] at hstarts ⊢
      exact ⟨List.cons_ne_nil _ _, hstarts.2⟩

/-- The words of a constraint begin and end as a line does. A guard only
has to begin so: an arrow and a relation follow. -/
theorem IsPrintable.ends {c : Constraint Float} (h : IsPrintable c) :
    IsNoHeader c.words ∧ c.words ≠ [] ∧ IsLeading c.words ∧ IsTrailing c.words := by
  induction c with
  | plain row =>
      obtain ⟨hheader, hne, hleading, htrailing⟩ := isApart_shapeWords h
      obtain ⟨hheader', hleading'⟩ := nameWords_append h.name hheader hleading
      exact ⟨hheader', List.append_ne_nil_of_right_ne_nil _ hne, hleading', htrailing.prepend _⟩
  | guarded g row ih =>
      obtain ⟨hheader, hne, hleading, _⟩ := ih h.1
      obtain ⟨hheader', hleading'⟩ := nameWords_append h.2.name
        (hheader.append hne (['-', '>'] :: row.shape.words row.term.words))
        (hleading.append (['-', '>'] :: row.shape.words row.term.words))
      refine ⟨hheader', ?_, hleading', ?_⟩
      · exact List.append_ne_nil_of_right_ne_nil _ (List.append_ne_nil_of_left_ne_nil hne _)
      · have htrailing := (isApart_shapeWords h.2).2.2.2
        exact ((htrailing.prepend [['-', '>']]).prepend _).prepend _

theorem isApart_constraintWords {c : Constraint Float} (h : IsPrintable c) : IsApart c.words := by
  have hword := h.isNamed.isPlainWord_words
  obtain ⟨hheader, _, hleading, htrailing⟩ := h.ends
  exact ⟨hword, header?_eq_none (fun w hw => (hword w hw).1) hheader, hleading, htrailing⟩

/-! ### Bounds and kinds -/

/-- The words of bounds. A name in front of `FREE` must be no keyword. -/
theorem isApart_boundsWords {name : String} {a : Attributes} (h : HasReadableBounds name a)
    (hfree : a.lower = -Binary64.infinity → a.upper = Binary64.infinity →
      isKeyword name.toList = false)
    {ws : List (List Char)} (hws : boundsWords? name a.lower a.upper = some ws) : IsApart ws := by
  have hword := isPlainWord_boundsWords? h.name.1 hws
  have hname := startsWithRelation_name h.name.1
  have hlower := startsWithRelation_plain a.lower
  have hupper : ∀ front : List (List Char), IsTrailing (front ++ [(plain a.upper).toList]) :=
    fun front => ⟨front, _, rfl, (isWord_plain _).1, endsPlainly_plain h.upper⟩
  have hparts : header? (joined ws) = none ∧ IsLeading ws ∧ IsTrailing ws := by
    have hwords : ∀ w ∈ ws, IsWord w := fun w hw => (hword w hw).1
    unfold boundsWords? at hws
    split at hws
    · cases hws
    split at hws
    · rename_i hboth
      rw [Bool.and_eq_true] at hboth
      cases hws
      refine ⟨?_, hname, [name.toList], "FREE".toList, rfl, by decide, by decide⟩
      have hkeyword := hfree (beq_negInfinity_iff.mp hboth.1)
        ((Binary64.beq_infinity_iff false).mp hboth.2)
      refine header?_eq_none_of_second (isWord_of_isName h.name.1)
        (fun w hw => hwords w (List.mem_cons_of_mem _ hw)) hkeyword fun e he heq => ?_
      -- The second word of a header is neither `free` nor empty.
      have hsecond : "free" = e := heq
      unfold secondWord? at he
      split at he
      · cases he
        exact absurd hsecond (by decide)
      split at he
      · cases he
        exact absurd hsecond (by decide)
      · cases he
    split at hws
    · cases hws
      refine ⟨header?_eq_none hwords (.inr ⟨'<', rfl, by decide⟩), hname, ?_⟩
      exact hupper [name.toList, ['<', '=']]
    split at hws
    · cases hws
      refine ⟨header?_eq_none hwords (isNoHeader_of_first (beginsNoHeader_plain h.lower) _), hlower,
        [(plain a.lower).toList, ['<', '=']], name.toList, rfl, hname.1, endsPlainly_name h.name.1⟩
    · cases hws
      refine ⟨header?_eq_none hwords (isNoHeader_of_first (beginsNoHeader_plain h.lower) _), hlower,
        ?_⟩
      exact hupper [(plain a.lower).toList, ['<', '='], name.toList, ['<', '=']]
  exact ⟨hword, hparts.1, hparts.2.1, hparts.2.2⟩

/-! ### Models -/

/-- Whether a name must be no keyword: where it stands in a list of
names, or in front of `FREE`. -/
def StandsAlone (a : Attributes) : Prop :=
  a.kind ≠ .real ∨ a.lower = -Binary64.infinity ∧ a.upper = Binary64.infinity

instance (a : Attributes) : Decidable (StandsAlone a) :=
  inferInstanceAs (Decidable (a.kind ≠ .real ∨ _ ∧ _))

/-- Whether a model is written in lines that stay apart. The kinds and
bounds of the given variables are written with it. -/
structure IsPrintableModel (registry : Registry) (m : Model) (vars : VariableSet) : Prop where
  objective : IsReadableTerm m.objective.term
  /-- An objective that is one name is no header. -/
  objectiveWord : ∀ v ∈ m.objective.term.occurring, m.objective.term.words = [v.name.toList] →
    isKeyword v.name.toList = false
  constraints : ∀ c ∈ m.constraints, IsPrintable c.normalize
  valid : ∀ v ∈ vars, registry.validate v = .ok ()
  name : ∀ v ∈ vars, isName v.name.toList = true
  /-- Where bounds are written, the name is read as a name. -/
  boundsName : ∀ v ∈ vars,
    boundsWords? v.name (registry.attributes v).lower (registry.attributes v).upper ≠ none →
      IsPlainName v.name
  keyword : ∀ v ∈ vars, StandsAlone (registry.attributes v) → isKeyword v.name.toList = false

/-- Whether a model can be read back from its text, in which the kinds
and bounds of the given variables are written. -/
structure IsReadableModel (registry : Registry) (m : Model) (vars : VariableSet) : Prop where
  objective : IsReadableTerm m.objective.term
  /-- A constant objective is not negative zero. -/
  objectiveConstant : m.objective.term.isConstant = true → m.objective.term.constant ≠ -0
  /-- An objective that is one name is no header. -/
  objectiveWord : ∀ v ∈ m.objective.term.occurring, m.objective.term.words = [v.name.toList] →
    isKeyword v.name.toList = false
  constraints : ∀ c ∈ m.constraints, IsReadableConstraint registry c.normalize
  occurring : ∀ v, m.Occurs v → v ∈ vars
  valid : ∀ v ∈ vars, registry.validate v = .ok ()
  name : ∀ v ∈ vars, isName v.name.toList = true
  /-- Where bounds are written, the name is read as a name. -/
  boundsName : ∀ v ∈ vars,
    boundsWords? v.name (registry.attributes v).lower (registry.attributes v).upper ≠ none →
      IsPlainName v.name
  keyword : ∀ v ∈ vars, StandsAlone (registry.attributes v) → isKeyword v.name.toList = false

theorem IsReadableModel.isPrintable {registry : Registry} {m : Model} {vars : VariableSet}
    (h : IsReadableModel registry m vars) : IsPrintableModel registry m vars :=
  ⟨h.objective, h.objectiveWord, fun c hc => (h.constraints c hc).isPrintable, h.valid, h.name,
    h.boundsName, h.keyword⟩

namespace IsPrintableModel

variable {registry : Registry} {m : Model} {vars : VariableSet}

theorem isNaN_of_check {a : Attributes} {name : String} (h : a.check name = .ok ()) :
    a.lower.isNaN = false ∧ a.upper.isNaN = false := by
  unfold Attributes.check at h
  split at h
  · cases h
  · rename_i hvoid
    simp only [Attributes.isVoid, Bool.or_eq_true, not_or, Bool.not_eq_true] at hvoid
    exact ⟨hvoid.1.1.1.1, hvoid.1.1.1.2⟩

theorem hasReadableBounds (h : IsPrintableModel registry m vars) {v : Variable} (hv : v ∈ vars)
    {ws : List (List Char)}
    (hws : boundsWords? v.name (registry.attributes v).lower (registry.attributes v).upper
      = some ws) : HasReadableBounds v.name (registry.attributes v) := by
  have hnumbers := isNaN_of_check (h.valid v hv)
  refine ⟨h.boundsName v hv ?_, hnumbers.1, hnumbers.2⟩
  rw [hws]
  exact Option.some_ne_none ws

theorem isStatement_objective (h : IsPrintableModel registry m vars) :
    IsStatement m.objective.term.words ∧ header? (joined m.objective.term.words) = none := by
  have hword := (isNamed_of_readable h.objective).isPlainWord_words
  refine ⟨⟨entryWords_ne_nil _ _, hword⟩, ?_⟩
  rcases entryWords_cases h.objective.entries.2 h.objective.entries.1 with hheader | ⟨p, hp, hwords⟩
  · exact header?_eq_none (fun w hw => (hword w hw).1) hheader
  · have hoccurs : p.1 ∈ m.objective.term.occurring := Term.mem_occurring_iff.mpr ⟨p.2, hp⟩
    have hkeyword := h.objectiveWord p.1 hoccurs hwords
    have hline : m.objective.term.words = [p.1.name.toList] := hwords
    rw [hline]
    exact header?_lone (isWord_of_isName (isNamed_of_readable h.objective p.1 hoccurs)) hkeyword

theorem isStatement_kind (h : IsPrintableModel registry m vars) {kind : Kind}
    (hkind : kind ≠ .real) : ∀ ws ∈ (namesOfKind registry vars kind).map fun name => [name.toList],
      IsStatement ws ∧ header? (joined ws) = none := by
  intro ws hws
  obtain ⟨name, hname, rfl⟩ := List.mem_map.mp hws
  obtain ⟨v, hv, rfl⟩ := List.mem_map.mp hname
  obtain ⟨hv, hvkind⟩ := List.mem_filter.mp hv
  have hv := VariableSet.mem_toList_iff.mp hv
  have hvkind : (registry.attributes v).kind = kind := of_decide_eq_true hvkind
  have hword := isPlainWord_of_isName (h.name v hv)
  refine ⟨⟨List.cons_ne_nil _ _, fun w hw => ?_⟩, header?_lone hword.1 ?_⟩
  · rw [List.mem_singleton.mp hw]
    exact hword
  · exact h.keyword v hv (.inl (by rw [hvkind]; exact hkind))

/-- No line of a printable model is taken for a header or continues
another one. -/
theorem isSeparate_ofModel (h : IsPrintableModel registry m vars) :
    (Sections.ofModel registry m vars).IsSeparate := by
  have hapart : ∀ {ws : List (List Char)}, IsApart ws → IsStatement ws ∧ header? (joined ws) = none
      ∧ endsWithOperator (joined ws) = false ∧ startsWithRelation (joined ws) = false :=
    fun hws => ⟨hws.isStatement, hws.header, endsWithOperator_joined hws.trailing,
      startsWithRelation_joined hws.leading⟩
  refine ⟨h.isStatement_objective, fun ws hws => ?_, fun ws hws => ?_,
    h.isStatement_kind (by decide), h.isStatement_kind (by decide)⟩
  · obtain ⟨c, hc, rfl⟩ := List.mem_map.mp hws
    exact hapart (isApart_constraintWords (h.constraints c hc))
  · obtain ⟨v, hv, heq⟩ := List.mem_filterMap.mp hws
    have hv := VariableSet.mem_toList_iff.mp hv
    exact hapart (isApart_boundsWords (h.hasReadableBounds hv heq)
      (fun hlower hupper => h.keyword v hv (.inr ⟨hlower, hupper⟩)) heq)

end IsPrintableModel

end LinearProgram.LpText
