import LinearProgram.Proofs.LpText.Accepted.Constraints
import LinearProgram.Proofs.LpText.Reading.Lines

/-!
# `LinearProgram.Proofs.LpText.Expressible.Refusals`: what no statement can say

A statement on a constraint has room for one name, which a colon ends,
and for one guard, which an arrow ends. Constraints can have more: a
guard may have a name and a guard of its own, and a term that has
cancelled to a constant may still be related to a bound. All of it is
written, and none of it is read.

* `Constraint.IsExpressible` says what a statement has room for.
* `IsStray` are the tokens that no expression has, so that
  `constraintOf_inv` knows the places of colons and arrows in what is
  read.
* `constraintTokens` are the tokens of a constraint with guards to any
  depth, and counting colons and arrows in them gives
  `isExpressible_of_read`: a constraint whose statement can be read is
  expressible.
-/

set_option autoImplicit false

namespace LinearProgram

namespace Constraint

/-- The names of a constraint and of its guards. -/
def names : Constraint Float → List String
  | plain row => row.name.toList
  | guarded guard row => row.name.toList ++ guard.names

/-- How many guards stand in front of one another. -/
def depth : Constraint Float → Nat
  | plain _ => 0
  | guarded guard _ => guard.depth + 1

/-- Whether a statement has room for a constraint. -/
structure IsExpressible (c : Constraint Float) : Prop where
  /-- A constant is not related to a single bound. -/
  varies : c.term.isConstant = true → LpText.IsRange c.shape
  /-- A guard has no guard. -/
  depth : c.depth ≤ 1
  /-- The constraint has a name or its guard has one, but not both. -/
  names : c.names.length ≤ 1
  /-- A name is no word for infinity. -/
  plain : ∀ name ∈ c.names, LpText.IsPlainName name

end Constraint

namespace LpText

open Text (append_cons_inj_last)

/-! ### Stray tokens -/

/-- Whether a token stands in no expression and between no two of them. -/
def IsStray : Token Float → Prop
  | .colon | .arrow => True
  | _ => False

theorem IsStray.isFactor {t : Token Float} (h : IsStray t) : IsFactor t := by
  cases t <;> trivial

/-- The factors that can be read are numbers, names and stars. -/
theorem not_isStray_factors {tokens : List (Token Float)} {c : Float} {v : Option Variable}
    {isOpen : Bool} {s s' : Symbols} {t : Term Float}
    (h : factors c v isOpen tokens s = (.ok t, s')) : ∀ u ∈ tokens, ¬ IsStray u := by
  induction tokens generalizing c v isOpen s with
  | nil => exact fun u hu => absurd hu List.not_mem_nil
  | cons token rest ih =>
      have hcons : ¬ IsStray token → (∀ u ∈ rest, ¬ IsStray u) → ∀ u ∈ token :: rest, ¬ IsStray u :=
        fun hhead htail => List.forall_mem_cons.mpr ⟨hhead, htail⟩
      cases token with
      | number value => exact hcons id (ih h)
      | name name =>
          cases v with
          | some w => cases h
          | none => exact hcons id (ih h)
      | star =>
          rw [factors] at h
          split at h
          · cases h
          · exact hcons id (ih h)
      -- Any other token stops the reader.
      | plus => cases h
      | minus => cases h
      | colon => cases h
      | arrow => cases h
      | relation r => cases h

/-- No token but a sign is lost where tokens are cut at the signs. -/
theorem exists_summand {negative : Bool} {before tokens : List (Token Float)} {t : Token Float}
    (ht : IsFactor t) (hmem : t ∈ before ∨ t ∈ tokens) :
    ∃ p ∈ summands negative before tokens, t ∈ p.2 := by
  induction tokens generalizing negative before with
  | nil =>
      rcases hmem with hmem | hmem
      · exact ⟨_, List.mem_singleton_self _, hmem⟩
      · cases hmem
  | cons u rest ih =>
      -- A sign ends a monomial or begins the first one; any other token joins one.
      have hsign : ∀ b b', t ≠ u → ∃ p ∈ (if before.isEmpty then summands b [] rest
          else (negative, before) :: summands b' [] rest), t ∈ p.2 := by
        intro b b' hne
        have hmem : t ∈ before ∨ t ∈ rest := hmem.imp_right fun h => List.mem_of_ne_of_mem hne h
        split
        · rename_i hempty
          rw [List.isEmpty_iff.mp hempty] at hmem
          exact ih hmem
        · rcases hmem with hmem | hmem
          · exact ⟨_, List.mem_cons_self .., hmem⟩
          · obtain ⟨p, hp, htp⟩ := ih (.inr hmem)
            exact ⟨p, List.mem_cons_of_mem _ hp, htp⟩
      have hjoin : t ∈ before ++ [u] ∨ t ∈ rest := by
        rw [List.mem_append, List.mem_singleton, or_assoc, ← List.mem_cons]
        exact hmem
      cases u with
      | plus =>
          rw [summands]
          exact hsign negative false fun heq => by rw [heq] at ht; exact ht
      | minus =>
          rw [summands]
          exact hsign (!negative) true fun heq => by rw [heq] at ht; exact ht
      | number value => exact ih hjoin
      | name name => exact ih hjoin
      | star => exact ih hjoin
      | colon => exact ih hjoin
      | arrow => exact ih hjoin
      | relation r => exact ih hjoin

/-- No token but a relation is lost where tokens are cut at the
relations. -/
theorem exists_side {tokens : List (Token Float)} {t : Token Float}
    (ht : ∀ r, t ≠ .relation r) (hmem : t ∈ tokens) :
    t ∈ (sides tokens).1 ∨ ∃ p ∈ (sides tokens).2, t ∈ p.2 := by
  induction tokens with
  | nil => cases hmem
  | cons u rest ih =>
      have hjoin : t ∈ u :: (sides rest).1 ∨ ∃ p ∈ (sides rest).2, t ∈ p.2 := by
        rcases List.mem_cons.mp hmem with rfl | hmem
        · exact .inl (List.mem_cons_self ..)
        · exact (ih hmem).imp_left (List.mem_cons_of_mem _)
      cases u with
      | relation r =>
          rcases ih (List.mem_of_ne_of_mem (ht r) hmem) with hleft | ⟨p, hp, htp⟩
          · exact .inr ⟨_, List.mem_cons_self .., hleft⟩
          · exact .inr ⟨p, List.mem_cons_of_mem _ hp, htp⟩
      | number value => exact hjoin
      | name name => exact hjoin
      | plus => exact hjoin
      | minus => exact hjoin
      | star => exact hjoin
      | colon => exact hjoin
      | arrow => exact hjoin

theorem not_isStray_addSummands {parts : List (Bool × List (Token Float))} {t u : Term Float}
    {s s' : Symbols} (h : addSummands t parts s = (.ok u, s')) :
    ∀ p ∈ parts, ∀ x ∈ p.2, ¬ IsStray x := by
  induction parts generalizing t s with
  | nil => exact fun p hp => absurd hp List.not_mem_nil
  | cons p rest ih =>
      obtain ⟨_, _, hp, hrest⟩ := action_bind_inv h
      exact List.forall_mem_cons.mpr ⟨not_isStray_factors hp, ih hrest⟩

/-- An expression that can be read has no stray tokens. -/
theorem not_isStray_expression {tokens : List (Token Float)} {s s' : Symbols} {t : Term Float}
    (h : expression tokens s = (.ok t, s')) : ∀ u ∈ tokens, ¬ IsStray u := by
  intro u hu hstray
  rw [expression] at h
  split at h
  · cases h
  · obtain ⟨p, hp, hup⟩ := exists_summand hstray.isFactor (.inr hu)
    exact not_isStray_addSummands h p hp u hup hstray

/-- A relation that can be read has no stray tokens. -/
theorem not_isStray_relation {tokens : List (Token Float)} {s s' : Symbols} {c : Constraint Float}
    (h : relation tokens s = (.ok c, s')) : ∀ u ∈ tokens, ¬ IsStray u := by
  intro u hu hstray
  -- The token is in one of the expressions between the relations, and each
  -- of these has been read.
  have hside := exists_side (fun r heq => by rw [heq] at hstray; exact hstray) hu
  rw [relation] at h
  rcases hsides : sides tokens with ⟨lhs, _ | ⟨⟨l, middle⟩, _ | ⟨⟨r, upper⟩, _ | ⟨other, others⟩⟩⟩⟩
    <;> rw [hsides] at h hside
  · cases h
  · obtain ⟨t, s₁, ht, h⟩ := action_bind_inv h
    obtain ⟨x, s₂, hx, h⟩ := action_bind_inv h
    rcases hside with hside | ⟨p, hp, hside⟩
    · exact not_isStray_expression ht u hside hstray
    · rw [List.mem_singleton.mp hp] at hside
      exact not_isStray_expression hx u hside hstray
  · obtain ⟨t, s₁, ht, h⟩ := action_bind_inv h
    obtain ⟨x, s₂, hx, h⟩ := action_bind_inv h
    obtain ⟨y, s₃, hy, h⟩ := action_bind_inv h
    rcases hside with hside | ⟨p, hp, hside⟩
    · exact not_isStray_expression ht u hside hstray
    · rcases List.mem_cons.mp hp with rfl | hp
      · exact not_isStray_expression hx u hside hstray
      · rw [List.mem_singleton.mp hp] at hside
        exact not_isStray_expression hy u hside hstray
  · cases h

/-! ### The parts of a statement -/

theorem nameTokens_splitName (tokens : List (Token Float)) :
    nameTokens (splitName tokens).1 ++ (splitName tokens).2 = tokens := by
  unfold splitName
  split
  · rfl
  · rfl

/-- Tokens are cut at an arrow, or there is none. -/
theorem splitArrow_cases (tokens : List (Token Float)) :
    (∃ before, (splitArrow tokens).1 = some before
        ∧ tokens = before ++ .arrow :: (splitArrow tokens).2)
      ∨ (splitArrow tokens).1 = none ∧ (splitArrow tokens).2 = tokens := by
  induction tokens with
  | nil => exact .inr ⟨rfl, rfl⟩
  | cons u rest ih =>
      by_cases harrow : u = .arrow
      · rw [harrow]
        exact .inl ⟨[], rfl, rfl⟩
      · rw [splitArrow]
        · rcases hsplit : splitArrow rest with ⟨_ | before, behind⟩
          · rw [hsplit] at ih
            rcases ih with ⟨before, heq, _⟩ | ⟨_, hall⟩
            · cases heq
            · exact .inr ⟨rfl, congrArg (u :: ·) hall⟩
          · rw [hsplit] at ih
            rcases ih with ⟨before', heq, hall⟩ | ⟨heq, _⟩
            · cases heq
              exact .inl ⟨u :: before, rfl, congrArg (u :: ·) hall⟩
            · cases heq
        · exact harrow

/-- A statement that can be read is a relation without stray tokens,
behind a name and behind a guard, each of which may be missing. -/
theorem constraintOf_inv {line : Nat} {tokens : List (Token Float)} {s s' : Symbols}
    {c : Constraint Float} (h : constraintOf line tokens s = (.ok c, s')) :
    ∃ name body c₁ s₁, relation body s = (.ok c₁, s₁)
      ∧ (tokens = nameTokens name ++ body
        ∨ ∃ before, (∀ u ∈ before, ¬ IsStray u)
          ∧ tokens = nameTokens name ++ (before ++ .arrow :: body)) := by
  rw [constraintOf_eq] at h
  obtain ⟨c₁, s₁, hbody, h⟩ := action_bind_inv h
  refine ⟨(splitName tokens).1, _, c₁, s₁, hbody, ?_⟩
  have hname := nameTokens_splitName tokens
  rcases splitArrow_cases (splitName tokens).2 with ⟨before, hguard, heq⟩ | ⟨_, heq⟩
  · rw [hguard] at h
    obtain ⟨g, s₂, hg, _⟩ := action_bind_inv h
    obtain ⟨_, _, hrelation, _⟩ := action_bind_inv hg
    refine .inr ⟨before, not_isStray_relation hrelation, ?_⟩
    rw [← heq, hname]
  · rw [heq]
    exact .inl hname.symm

/-! ### The tokens of a constraint -/

/-- The tokens of a name in front of a constraint. A word for infinity
is a number even there. -/
def labelTokens : Option String → List (Token Float)
  | some name => [nameToken name, .colon]
  | none => []

/-- The tokens of a constraint. -/
def constraintTokens : Constraint Float → List (Token Float)
  | .plain row => labelTokens row.name ++ shapeTokens (termTokens row.term) row.shape
  | .guarded g row =>
    labelTokens row.name
      ++ (constraintTokens g ++ .arrow :: shapeTokens (termTokens row.term) row.shape)

theorem spells_labelWords {name : Option String}
    (h : ∀ n, name = some n → isName n.toList = true) :
    Spells (Constraint.nameWords name) (labelTokens name) := by
  cases name with
  | none => exact spells_nil
  | some n => exact spells_label (h n rfl)

theorem IsPrintableRow.spells {row : Row Float} (h : IsPrintableRow row) :
    Spells (row.shape.words row.term.words) (shapeTokens (termTokens row.term) row.shape) :=
  spells_shapeWords (spells_termWords h.term) h.numbers

theorem IsPrintable.spells {c : Constraint Float} (h : IsPrintable c) :
    Spells c.words (constraintTokens c) := by
  induction c with
  | plain row => exact (spells_labelWords h.name).append (IsPrintableRow.spells h)
  | guarded g row ih =>
      exact (spells_labelWords h.2.name).append
        ((ih h.1).append (spells_arrow.cons h.2.spells))

theorem IsPrintable.row {c : Constraint Float} (h : IsPrintable c) : IsPrintableRow c.row := by
  cases c with
  | plain row => exact h
  | guarded g row => exact h.2

theorem IsPrintable.isName_of_mem_names {c : Constraint Float} (h : IsPrintable c) :
    ∀ n ∈ c.names, isName n.toList = true := by
  induction c with
  | plain row => exact fun n hn => h.name n (Option.mem_toList.mp hn)
  | guarded g row ih =>
      intro n hn
      rcases List.mem_append.mp hn with hn | hn
      · exact h.2.name n (Option.mem_toList.mp hn)
      · exact ih h.1 n hn

/-- Whether a token is a colon. -/
def isColon : Token Float → Bool
  | .colon => true
  | _ => false

/-- Whether a token is an arrow. -/
def isArrow : Token Float → Bool
  | .arrow => true
  | _ => false

theorem countP_of_not_isStray {tokens : List (Token Float)} (h : ∀ u ∈ tokens, ¬ IsStray u) :
    tokens.countP isColon = 0 ∧ tokens.countP isArrow = 0 := by
  rw [List.countP_eq_zero, List.countP_eq_zero]
  constructor
  · intro u hu hcolon
    cases u with
    | colon => exact h _ hu trivial
    | _ => cases hcolon
  · intro u hu harrow
    cases u with
    | arrow => exact h _ hu trivial
    | _ => cases harrow

theorem not_isStray_shapeTokens (t : Term Float) (shape : Shape Float) :
    ∀ u ∈ shapeTokens (termTokens t) shape, ¬ IsStray u := by
  intro u hu hstray
  cases u with
  | colon => exact colon_not_mem t shape hu
  | arrow => exact arrow_not_mem t shape hu
  | _ => cases hstray

theorem countP_labelTokens (name : Option String) :
    (labelTokens name).countP isColon = name.toList.length
      ∧ (labelTokens name).countP isArrow = 0 := by
  cases name with
  | none => exact ⟨rfl, rfl⟩
  | some n =>
      have htoken : isColon (nameToken n) = false ∧ isArrow (nameToken n) = false := by
        unfold nameToken
        split
        · exact ⟨rfl, rfl⟩
        · exact ⟨rfl, rfl⟩
      simp only [labelTokens, List.countP_cons, htoken]
      exact ⟨rfl, rfl⟩

/-- There is a colon for each name and an arrow for each guard. -/
theorem countP_constraintTokens (c : Constraint Float) :
    (constraintTokens c).countP isColon = c.names.length
      ∧ (constraintTokens c).countP isArrow = c.depth := by
  have hrow : ∀ row : Row Float,
      (shapeTokens (termTokens row.term) row.shape).countP isColon = 0
        ∧ (shapeTokens (termTokens row.term) row.shape).countP isArrow = 0 := fun row =>
    countP_of_not_isStray (not_isStray_shapeTokens row.term row.shape)
  induction c with
  | plain row =>
      simp [constraintTokens, Constraint.names, Constraint.depth, countP_labelTokens, hrow]
  | guarded g row ih =>
      simp [constraintTokens, Constraint.names, Constraint.depth, countP_labelTokens, hrow, ih,
        List.countP_cons, isColon, isArrow]

theorem countP_nameTokens (name : Option String) :
    (nameTokens name).countP isColon = name.toList.length
      ∧ (nameTokens name).countP isArrow = 0 := by
  cases name <;> exact ⟨rfl, rfl⟩

/-- The one name of a constraint stands in front of its tokens, even if
it is the name of a guard. -/
theorem constraintTokens_of_names {c : Constraint Float} {name : String} (h : c.names = [name]) :
    ∃ rest, constraintTokens c = nameToken name :: .colon :: rest := by
  induction c with
  | plain row =>
      have hname : row.name.toList = [name] := h
      rw [Option.toList_eq_singleton_iff] at hname
      rw [constraintTokens, hname]
      exact ⟨_, rfl⟩
  | guarded g row ih =>
      rw [Constraint.names] at h
      rw [constraintTokens]
      cases hname : row.name with
      | some n =>
          rw [hname] at h
          rw [← (List.cons.inj h).1]
          exact ⟨_, rfl⟩
      | none =>
          rw [hname] at h
          obtain ⟨rest, heq⟩ := ih h
          rw [heq]
          exact ⟨_, rfl⟩

/-! ### What can be read is expressible -/

/-- Two constants are not related. -/
theorem isRange_of_relation {t : Term Float} (hconstant : t.isConstant = true)
    (ht : t.constant.isNaN = false) {shape : Shape Float} (hnumbers : HasNumbers shape)
    {s s' : Symbols} {c : Constraint Float}
    (h : relation (shapeTokens (termTokens t) shape) s = (.ok c, s')) : IsRange shape := by
  have htokens : termTokens t = numberTokens t.constant := by
    rw [termTokens, sortByName_eq_nil_iff.mpr hconstant, entryTokens]
  -- A number to the left and to the right of one relation is no constraint.
  have hone : ∀ {x y : Float} (r : Relation), x.isNaN = false → y.isNaN = false →
      relation (numberTokens x ++ .relation r :: numberTokens y) s ≠ (.ok c, s') := by
    intro x y r hx hy h
    rw [relation, sides_one (isInner_numberTokens x) (isInner_numberTokens y)] at h
    obtain ⟨u, s₁, hu, h⟩ := action_bind_inv h
    obtain ⟨v, s₂, hv, h⟩ := action_bind_inv h
    rw [expression_numberTokens hx] at hu
    rw [expression_numberTokens hy] at hv
    cases hu
    cases hv
    cases h
  rw [htokens] at h
  cases shape with
  | left bound relation => exact absurd h (hone relation hnumbers ht)
  | right relation bound => exact absurd h (hone relation ht hnumbers)
  | equal bound => exact absurd h (hone .equal ht hnumbers)
  | range lower l r upper => trivial

/-- Of a statement that can be read, the relation can be read; there is
one guard at most; and the names are the one in front of the statement. -/
theorem parts_of_constraintOf {line : Nat} {c d : Constraint Float} {s s' : Symbols}
    (h : constraintOf line (constraintTokens c) s = (.ok d, s')) :
    (∃ d₁ s₁, relation (shapeTokens (termTokens c.term) c.shape) s = (.ok d₁, s₁))
      ∧ c.depth ≤ 1
      ∧ ∃ name rest, constraintTokens c = nameTokens name ++ rest
        ∧ c.names.length = name.toList.length := by
  obtain ⟨name, body, d₁, s₁, hbody, hcut⟩ := constraintOf_inv h
  obtain ⟨hcolons, harrows⟩ := countP_constraintTokens c
  obtain ⟨hcolon, harrow⟩ := countP_nameTokens name
  obtain ⟨hcolon', harrow'⟩ := countP_of_not_isStray (not_isStray_relation hbody)
  -- The reader found as many arrows as guards, and as many colons as names.
  rcases hcut with heq | ⟨before, hbefore, heq⟩
  · simp only [heq, List.countP_append, hcolon, hcolon', Nat.add_zero] at hcolons
    simp only [heq, List.countP_append, harrow, harrow', Nat.add_zero] at harrows
    refine ⟨⟨d₁, s₁, ?_⟩, by omega, name, body, heq, hcolons.symm⟩
    cases c with
    | guarded g row => cases harrows
    | plain row =>
        -- The two names take the same room, so that the relations are the same.
        have hlength : (labelTokens row.name).length = (nameTokens name).length := by
          have hnames : name.toList.length = row.name.toList.length := hcolons
          cases hname : row.name <;> cases name <;> rw [hname] at hnames <;>
            first | rfl | cases hnames
        rw [constraintTokens] at heq
        rw [← (List.append_inj heq hlength).2] at hbody
        exact hbody
  · obtain ⟨hcolon'', harrow''⟩ := countP_of_not_isStray hbefore
    have hone : isColon .arrow = false ∧ isArrow .arrow = true := ⟨rfl, rfl⟩
    simp only [heq, List.countP_append, List.countP_cons, hone, hcolon, hcolon', hcolon'',
      Nat.add_zero, Bool.false_eq_true, if_false] at hcolons
    simp only [heq, List.countP_append, List.countP_cons, hone, harrow, harrow', harrow'',
      Nat.zero_add, if_true] at harrows
    refine ⟨⟨d₁, s₁, ?_⟩, by omega, name, _, heq, hcolons.symm⟩
    cases c with
    | plain row => cases harrows
    | guarded g row =>
        -- The last arrow is the same in both, and so is what stands behind it.
        rw [constraintTokens, ← List.append_assoc, ← List.append_assoc] at heq
        have hrow := not_isStray_shapeTokens row.term row.shape
        have harrowStray : IsStray .arrow := trivial
        obtain ⟨_, _, hsame⟩ := append_cons_inj_last (p := fun u => ¬ IsStray u) hrow
          (not_isStray_relation hbody) (not_not_intro harrowStray) (not_not_intro harrowStray) heq
        rw [← hsame] at hbody
        exact hbody

/-- A constraint whose statement can be read is expressible. -/
theorem isExpressible_of_read {c : Constraint Float} (h : IsPrintable c) {line : Nat}
    {d : Constraint Float} {s s' : Symbols}
    (hread : constraintStatement ⟨line, joined c.words⟩ s = (.ok d, s')) : c.IsExpressible := by
  obtain ⟨tokens, s₁, htokens, hread⟩ := action_bind_inv hread
  rw [tokenize_joined h.spells] at htokens
  cases htokens
  obtain ⟨⟨d₁, s₁, hrelation⟩, hdepth, name, rest, heq, hlength⟩ := parts_of_constraintOf hread
  refine ⟨fun hconstant => ?_, hdepth, ?_, fun n hn => ⟨h.isName_of_mem_names n hn, ?_⟩⟩
  · exact isRange_of_relation hconstant (h.row.term.constant hconstant) h.row.numbers hrelation
  · rw [hlength]
    cases name with
    | none => exact Nat.zero_le 1
    | some m => exact Nat.le_refl 1
  · -- The name is the one that the reader took for the statement's.
    cases name with
    | none =>
        rw [List.eq_nil_of_length_eq_zero hlength] at hn
        exact absurd hn List.not_mem_nil
    | some m =>
        obtain ⟨n', hone⟩ := List.length_eq_one_iff.mp hlength
        rw [hone, List.mem_singleton] at hn
        obtain ⟨rest', heq'⟩ := constraintTokens_of_names hone
        rw [heq'] at heq
        have htoken : nameToken n' = .name m := (List.cons.inj heq).1
        unfold nameToken at htoken
        split at htoken
        · cases htoken
        · rename_i hplain
          rw [hn]
          exact Bool.not_eq_true _ ▸ hplain

end LpText

end LinearProgram
