import LinearProgram.Proofs.LpText.Expressible.Refusals
import LinearProgram.Proofs.LpText.Reading.RoundTrip

/-!
# `LinearProgram.Proofs.LpText.Expressible.Forms`: constraints as they are read

What an expressible constraint is read as differs from it in two ways.
Negative zeros lose their signs, and the name of a guard becomes the
name of the constraint. `Constraint.asRead` is what comes out, and it
has a statement of its own that is read in the same way.

* `relation_mapBounds`: a bound is read like the bound without its sign.
* `constraintStatement_asRead` and `objectiveTerm_asRead`: the two
  statements cannot be told apart by the reader.
* `Model.asRead` puts the parts together, and `read_write_asRead` says
  that the two texts are read as the same document.
-/

set_option autoImplicit false

namespace LinearProgram

/-- Changes every bound. -/
def Shape.mapBounds {K : Type} (f : K → K) : Shape K → Shape K
  | left bound relation => left (f bound) relation
  | right relation bound => right relation (f bound)
  | equal bound => equal (f bound)
  | range lower l r upper => range (f lower) l r (f upper)

/-- A constraint as the reader takes it from its statement: no zero has
a sign, and a name in front of the guard is that of the constraint. -/
def Constraint.asRead : Constraint Float → Constraint Float
  | plain row => plain { row with shape := row.shape.mapBounds LpText.writtenConstant }
  | guarded guard row =>
    guarded (plain ⟨guard.shape.mapBounds LpText.writtenConstant, guard.term, none⟩)
      { row with
        shape := row.shape.mapBounds LpText.writtenConstant
        name := row.name.or guard.name }

/-- A model as the reader takes it from its text. -/
def Model.asRead (m : Model) : Model where
  objective :=
    { m.objective with
      term := m.objective.term.setConstant (LpText.writtenConstant m.objective.term.constant) }
  constraints := m.constraints.map fun c => c.normalize.asRead

namespace LpText

/-! ### Numbers -/

theorem isNaN_writtenConstant {x : Float} (h : x.isNaN = false) :
    (writtenConstant x).isNaN = false := by
  unfold writtenConstant
  split
  · exact h
  · decide

theorem isReadableBound_writtenConstant {x : Float} (h : x.isNaN = false) :
    IsReadableBound (writtenConstant x) := ⟨isNaN_writtenConstant h, writtenConstant_ne x⟩

/-- A number is read as the number without the sign of its zero. -/
theorem expression_writtenConstant {x : Float} (h : x.isNaN = false) :
    expression (numberTokens (writtenConstant x)) = expression (numberTokens x) := by
  funext s
  rw [expression_numberTokens h, expression_numberTokens (isNaN_writtenConstant h),
    writtenConstant_eq (isNaN_writtenConstant h) (writtenConstant_ne x)]

/-! ### Relations -/

theorem HasNumbers.mapBounds {shape : Shape Float} (h : HasNumbers shape) :
    HasNumbers (shape.mapBounds writtenConstant) := by
  cases shape with
  | left bound relation => exact isNaN_writtenConstant h
  | right relation bound => exact isNaN_writtenConstant h
  | equal bound => exact isNaN_writtenConstant h
  | range lower l r upper => exact ⟨isNaN_writtenConstant h.1, isNaN_writtenConstant h.2⟩

/-- Bounds are read as those without the signs of zeros. -/
theorem relation_mapBounds (t : Term Float) {shape : Shape Float} (h : HasNumbers shape) :
    relation (shapeTokens (termTokens t) (shape.mapBounds writtenConstant))
      = relation (shapeTokens (termTokens t) shape) := by
  have hterm := isInner_termTokens t
  have hnumber := isInner_numberTokens
  cases shape with
  | left bound r =>
      rw [Shape.mapBounds, shapeTokens, shapeTokens, relation, relation,
        sides_one (hnumber _) hterm, sides_one (hnumber _) hterm]
      dsimp only
      rw [expression_writtenConstant h]
  | right r bound =>
      rw [Shape.mapBounds, shapeTokens, shapeTokens, relation, relation,
        sides_one hterm (hnumber _), sides_one hterm (hnumber _)]
      dsimp only
      rw [expression_writtenConstant h]
  | equal bound =>
      rw [Shape.mapBounds, shapeTokens, shapeTokens, relation, relation,
        sides_one hterm (hnumber _), sides_one hterm (hnumber _)]
      dsimp only
      rw [expression_writtenConstant h]
  | range lower l r upper =>
      rw [Shape.mapBounds, shapeTokens, shapeTokens, relation, relation,
        sides_two (hnumber _) hterm (hnumber _), sides_two (hnumber _) hterm (hnumber _)]
      dsimp only
      rw [expression_writtenConstant h.1, expression_writtenConstant h.2]

/-! ### Statements -/

theorem labelTokens_of_plain {name : Option String} (h : ∀ n, name = some n → IsPlainName n) :
    labelTokens name = nameTokens name := by
  cases name with
  | none => rfl
  | some n =>
      rw [labelTokens, nameToken, if_neg (by rw [(h n rfl).2]; exact Bool.false_ne_true)]
      rfl

theorem constraintOf_plain (line : Nat) (name : Option String) (t : Term Float)
    (shape : Shape Float) :
    constraintOf line (nameTokens name ++ shapeTokens (termTokens t) shape) = (do
      let c ← relation (shapeTokens (termTokens t) shape)
      pure (nameAs c name)) := by
  rw [constraintOf_eq, splitName_nameTokens name (colon_not_mem t shape),
    splitArrow_none (arrow_not_mem t shape)]

theorem constraintOf_guarded (line : Nat) (name : Option String) (t u : Term Float)
    (shape shape' : Shape Float) :
    constraintOf line (nameTokens name ++ (shapeTokens (termTokens u) shape'
        ++ .arrow :: shapeTokens (termTokens t) shape)) = (do
      let c ← relation (shapeTokens (termTokens t) shape)
      let g ← guard line (shapeTokens (termTokens u) shape')
      attach (nameAs c name) g) := by
  have hcolon : ¬ .colon ∈ shapeTokens (termTokens u) shape'
      ++ .arrow :: shapeTokens (termTokens t) shape := by
    simp [colon_not_mem]
  rw [constraintOf_eq, splitName_nameTokens name hcolon, splitArrow_some (arrow_not_mem u shape')]

/-- The tokens of an expressible constraint with a guard: its name or
the name of its guard stands in front. -/
theorem constraintTokens_guarded {grow row : Row Float}
    (h : (Constraint.guarded (.plain grow) row).IsExpressible) :
    constraintTokens (.guarded (.plain grow) row)
      = nameTokens (row.name.or grow.name) ++ (shapeTokens (termTokens grow.term) grow.shape
        ++ .arrow :: shapeTokens (termTokens row.term) row.shape) := by
  have hnames : (row.name.toList ++ grow.name.toList).length ≤ 1 := h.names
  have hplain : ∀ n ∈ row.name.toList ++ grow.name.toList, IsPlainName n := h.plain
  rw [constraintTokens, constraintTokens]
  cases hrow : row.name with
  | none =>
      rw [hrow] at hplain
      rw [Option.none_or, ← labelTokens_of_plain fun n hn => hplain n (Option.mem_toList.mpr hn),
        List.append_assoc]
      rfl
  | some n =>
      rw [hrow] at hnames hplain
      have hnone : grow.name = none := by
        cases hgrow : grow.name with
        | none => rfl
        | some n' =>
            rw [hgrow] at hnames
            exact absurd hnames (show ¬ 2 ≤ 1 by decide)
      rw [hnone, Option.or_none, labelTokens_of_plain fun n' hn' => hplain n'
        (List.mem_append_left _ (Option.mem_toList.mpr hn'))]
      rfl

theorem isPlainName_or {grow row : Row Float}
    (h : (Constraint.guarded (.plain grow) row).IsExpressible) :
    ∀ n, row.name.or grow.name = some n → IsPlainName n := by
  intro n hn
  refine h.plain n (List.mem_append.mpr ?_)
  rcases Option.or_eq_some_iff.mp hn with hrow | ⟨_, hgrow⟩
  · exact .inl (Option.mem_toList.mpr hrow)
  · exact .inr (Option.mem_toList.mpr hgrow)

theorem IsPrintableRow.mapBounds {row : Row Float} (h : IsPrintableRow row) {name : Option String}
    (hname : ∀ n, name = some n → isName n.toList = true) :
    IsPrintableRow ⟨row.shape.mapBounds writtenConstant, row.term, name⟩ := by
  refine ⟨fun bound relation heq => ?_, h.numbers.mapBounds, h.term, hname⟩
  cases hshape : row.shape with
  | left b r => exact h.termFirst b r hshape
  | right r b => rw [hshape] at heq; cases heq
  | equal b => rw [hshape] at heq; cases heq
  | range lower l r upper => rw [hshape] at heq; cases heq

theorem IsPrintable.asRead {c : Constraint Float} (h : IsPrintable c) (hc : c.IsExpressible) :
    IsPrintable c.asRead := by
  cases c with
  | plain row => exact IsPrintableRow.mapBounds h h.name
  | guarded g row =>
      cases g with
      | guarded g' grow => exact absurd hc.depth (by simp [Constraint.depth])
      | plain grow =>
          refine ⟨IsPrintableRow.mapBounds h.1 fun n hn => ?_,
            IsPrintableRow.mapBounds h.2 fun n hn => (isPlainName_or hc n hn).1⟩
          -- The guard is read without a name.
          cases hn

theorem constraintOf_asRead {c : Constraint Float} (h : IsPrintable c) (hc : c.IsExpressible)
    (line : Nat) :
    constraintOf line (constraintTokens c.asRead) = constraintOf line (constraintTokens c) := by
  cases c with
  | plain row =>
      have hname : ∀ n, row.name = some n → IsPlainName n := fun n hn =>
        hc.plain n (Option.mem_toList.mpr hn)
      rw [Constraint.asRead, constraintTokens, constraintTokens, labelTokens_of_plain hname,
        constraintOf_plain, constraintOf_plain, relation_mapBounds row.term h.numbers]
  | guarded g row =>
      cases g with
      | guarded g' grow => exact absurd hc.depth (by simp [Constraint.depth])
      | plain grow =>
          have hguard : guard line (shapeTokens (termTokens grow.term)
                (grow.shape.mapBounds writtenConstant))
              = guard line (shapeTokens (termTokens grow.term) grow.shape) := by
            rw [guard, guard, relation_mapBounds grow.term h.1.numbers]
          rw [constraintTokens_guarded hc, constraintOf_guarded,
            ← relation_mapBounds row.term h.2.numbers, ← hguard, ← constraintOf_guarded,
            ← labelTokens_of_plain (isPlainName_or hc)]
          rfl

/-- The reader cannot tell the statement of a constraint from that of
the constraint as it is read. -/
theorem constraintStatement_asRead {c : Constraint Float} (h : IsPrintable c)
    (hc : c.IsExpressible) (line : Nat) :
    constraintStatement ⟨line, joined c.asRead.words⟩
      = constraintStatement ⟨line, joined c.words⟩ := by
  rw [constraintStatement, constraintStatement]
  dsimp only
  rw [tokenize_joined h.spells, tokenize_joined (h.asRead hc).spells]
  exact constraintOf_asRead h hc line

theorem constantTokens_writtenConstant (c : Float) :
    constantTokens (writtenConstant c) = constantTokens c := by
  unfold writtenConstant
  split
  · rfl
  · rename_i hc
    rw [constantTokens, constantTokens, if_neg (by decide), if_neg (by decide),
      if_neg fun hlt => hc (.inl hlt), if_neg fun hlt => hc (.inr hlt)]

/-- The reader cannot tell an objective from the one without the sign of
a zero. -/
theorem objectiveTerm_asRead {t : Term Float} (h : IsReadableTerm t) :
    Draft.objectiveTerm (joined (t.setConstant (writtenConstant t.constant)).words)
      = Draft.objectiveTerm (joined t.words) := by
  have h' : IsReadableTerm (t.setConstant (writtenConstant t.constant)) :=
    ⟨h.summand, h.distinct, fun hconstant => isNaN_writtenConstant (h.constant hconstant)⟩
  have hsplit : ∀ u : Term Float, (splitName (termTokens u)).2 = termTokens u := fun u =>
    congrArg Prod.snd (splitName_nameTokens none fun hmem => standsIn_entryTokens _ _ _ hmem)
  have hexpression : expression (termTokens (t.setConstant (writtenConstant t.constant)))
      = expression (termTokens t) := by
    show expression (entryTokens (Variable.sortByName t.coefficients.toList)
      (writtenConstant t.constant)) = expression (entryTokens _ t.constant)
    cases hlist : Variable.sortByName t.coefficients.toList with
    | nil => exact expression_writtenConstant (h.constant (sortByName_eq_nil_iff.mp hlist))
    | cons p rest => rw [entryTokens, entryTokens, constantTokens_writtenConstant]
  rw [Draft.objectiveTerm, Draft.objectiveTerm, tokenize_joined (spells_termWords h),
    tokenize_joined (spells_termWords h')]
  show expression (splitName _).2 = expression (splitName _).2
  rw [hsplit, hsplit, hexpression]

end LpText

end LinearProgram
