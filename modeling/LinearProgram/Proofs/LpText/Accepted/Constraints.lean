import LinearProgram.Proofs.LpText.Accepted.Names
import LinearProgram.Proofs.LpText.Reading.Constraints

/-!
# `LinearProgram.Proofs.LpText.Accepted.Constraints`: what can come out of a text

Terms and constraints that have been read are not all there could be:
their variables are those of the text, no constant and no bound is
negative zero, because sums begin with zero, and a guard is an equation
of a variable that has become binary.

* `isAcceptedTerm_expression`, `isAcceptedRow_relation` and
  `isAcceptedConstraint_statement` go through the readings.
* All of it stays so while more is read: `IsAcceptedConstraint.mono`.
-/

set_option autoImplicit false

namespace LinearProgram

/-! ### The variables of sums -/

namespace Term

variable {t u : Term Float} {v w : Variable} {c : Float}

theorem mem_occurring_addTerm (h : v ∈ (t.addTerm w c).occurring) : v ∈ t.occurring ∨ v = w := by
  obtain ⟨d, hget⟩ := mem_occurring.mp h
  rw [get?_addTerm] at hget
  split at hget
  · exact .inr ‹_›
  · exact .inl (mem_occurring.mpr ⟨d, hget⟩)

theorem mem_occurring_scale (h : v ∈ (t.scale c).occurring) : v ∈ t.occurring := by
  obtain ⟨d, hget⟩ := mem_occurring.mp h
  rw [get?_scale] at hget
  obtain ⟨b, hb, _⟩ := Option.bind_eq_some_iff.mp hget
  exact mem_occurring.mpr ⟨b, hb⟩

theorem mem_occurring_add (h : v ∈ (t + u).occurring) : v ∈ t.occurring ∨ v ∈ u.occurring := by
  have hall : ∀ (l : List (Variable × Float)) (t : Term Float),
      v ∈ (l.foldl (fun t p => t.addTerm p.1 (1 * p.2)) t).occurring →
        v ∈ t.occurring ∨ v ∈ l.map (·.1) := by
    intro l
    induction l with
    | nil => exact fun t h => .inl h
    | cons p l ih =>
        intro t h
        rcases ih _ h with h | h
        · rcases mem_occurring_addTerm h with h | rfl
          · exact .inl h
          · exact .inr (List.mem_cons_self ..)
        · exact .inr (List.mem_cons_of_mem _ h)
  exact hall u.coefficients.toList (t.addConstant (1 * u.constant)) h

end Term

namespace LpText

theorem constant_add (t u : Term Float) : (t + u).constant = t.constant + u.constant := by
  refine (constant_foldl_addTerm _ _).trans ?_
  show t.constant + 1 * u.constant = _
  rw [Binary64.one_mul]

/-- What is done one after another succeeds step by step. -/
theorem action_bind_inv {σ ε α β : Type} {x : Action σ ε α} {f : α → Action σ ε β} {s s' : σ}
    {b : β} (h : (x >>= f) s = (.ok b, s')) :
    ∃ a s₁, x s = (.ok a, s₁) ∧ f a s₁ = (.ok b, s') := by
  rw [Action.bind_apply] at h
  split at h
  · rename_i a s₁ heq
    exact ⟨a, s₁, heq, h⟩
  · cases h

theorem action_lift_inv {σ ε δ α : Type} {wrap : δ → ε} {x : Except δ α} {s s' : σ} {a : α}
    (h : (Action.lift wrap x : Action σ ε α) s = (.ok a, s')) : x = .ok a ∧ s = s' := by
  cases x with
  | error e => cases h
  | ok b =>
      cases h
      exact ⟨rfl, rfl⟩

/-! ### Terms -/

/-- Whether a variable is one of the text and has a name that is no word
for infinity. -/
structure Symbols.Knows (s : Symbols) (v : Variable) : Prop where
  mem : v ∈ s.variableSet
  name : IsPlainName v.name

theorem Symbols.Knows.mono {s s' : Symbols} {v : Variable} (h : s.Knows v) (hgrows : s.Grows s') :
    s'.Knows v := ⟨hgrows.mem h.mem, h.name⟩

/-- What a term has that has been read. -/
structure IsAcceptedTerm (s : Symbols) (t : Term Float) : Prop where
  known : ∀ v ∈ t.occurring, s.Knows v
  constant : t.constant ≠ -0

theorem IsAcceptedTerm.mono {s s' : Symbols} {t : Term Float} (h : IsAcceptedTerm s t)
    (hgrows : s.Grows s') : IsAcceptedTerm s' t :=
  ⟨fun v hv => (h.known v hv).mono hgrows, h.constant⟩

theorem isAcceptedTerm_zero (s : Symbols) : IsAcceptedTerm s 0 :=
  ⟨fun _ hv => absurd hv List.not_mem_nil, show (0 : Float) ≠ -0 by decide⟩

/-- A sum is not negative zero where its first summand is not. -/
theorem IsAcceptedTerm.add {s : Symbols} {t u : Term Float} (ht : IsAcceptedTerm s t)
    (hu : ∀ v ∈ u.occurring, s.Knows v) : IsAcceptedTerm s (t + u) := by
  refine ⟨fun v hv => (Term.mem_occurring_add hv).elim (ht.known v) (hu v), ?_⟩
  rw [constant_add]
  exact Binary64.add_ne_neg_zero _ ht.constant

/-- The variable of a product is a name of its tokens, or the one found
before. -/
theorem known_factors {tokens : List (Token Float)} (htokens : HasPlainNames tokens) {c : Float}
    {v : Option Variable} {isOpen : Bool} {s s' : Symbols} {t : Term Float}
    (hv : ∀ w, v = some w → s.Knows w) (h : factors c v isOpen tokens s = (.ok t, s')) :
    ∀ w ∈ t.occurring, s'.Knows w := by
  induction tokens generalizing c v isOpen s with
  | nil =>
      rw [factors] at h
      split at h
      · cases h
      · cases h
        intro w hw
        cases v with
        | none => exact absurd hw List.not_mem_nil
        | some u =>
            rcases Term.mem_occurring_addTerm hw with hw | rfl
            · exact absurd hw List.not_mem_nil
            · exact hv w rfl
  | cons token rest ih =>
      have hrest : HasPlainNames rest := fun name hname =>
        htokens name (List.mem_cons_of_mem _ hname)
      cases token with
      | number value => exact ih hrest hv h
      | name name =>
          cases v with
          | some u => cases h
          | none =>
              refine ih hrest (fun w hw => ?_) h
              cases hw
              refine ⟨s.mem_mention name, ?_⟩
              rw [show (s.mention name).1.name = name from s.name_mention name]
              exact htokens name (List.mem_cons_self ..)
      | star =>
          rw [factors] at h
          split at h
          · cases h
          · exact ih hrest hv h
      | plus => cases h
      | minus => cases h
      | colon => cases h
      | arrow => cases h
      | relation r => cases h

theorem isAcceptedTerm_addSummands {parts : List (Bool × List (Token Float))}
    (hparts : ∀ p ∈ parts, HasPlainNames p.2) {t u : Term Float} {s s' : Symbols}
    (ht : IsAcceptedTerm s t) (h : addSummands t parts s = (.ok u, s')) : IsAcceptedTerm s' u := by
  induction parts generalizing t s with
  | nil =>
      cases h
      exact ht
  | cons p rest ih =>
      obtain ⟨negative, tokens⟩ := p
      obtain ⟨x, s₁, hx, hrest⟩ := action_bind_inv h
      have hgrows : s.Grows s₁ := by
        have hleads := @leads_factors Float _ isReach_grows _ tokens
          (fun name _ s => s.grows_mention name) 1 none true s
        rwa [show factors 1 none true tokens s = (.ok x, s₁) from hx] at hleads
      have hnone : ∀ w, (none : Option Variable) = some w → s.Knows w := nofun
      have hknown := known_factors (hparts _ (List.mem_cons_self ..)) hnone hx
      exact ih (fun q hq => hparts q (List.mem_cons_of_mem _ hq))
        ((ht.mono hgrows).add fun v hv => hknown v (Term.mem_occurring_scale hv)) hrest

/-- What an expression is read as. -/
theorem isAcceptedTerm_expression {tokens : List (Token Float)} (htokens : HasPlainNames tokens)
    {s s' : Symbols} {t : Term Float} (h : expression tokens s = (.ok t, s')) :
    IsAcceptedTerm s' t := by
  rw [expression] at h
  split at h
  · cases h
  · refine isAcceptedTerm_addSummands (fun p hp name hname => ?_) (isAcceptedTerm_zero s) h
    rcases mem_of_mem_summands hp hname with hmem | hmem
    · cases hmem
    · exact htokens name hmem

/-! ### Relations -/

/-- What a row has that has been read. -/
structure IsAcceptedRow (s : Symbols) (row : Row Float) : Prop where
  term : IsAcceptedTerm s row.term
  built : row.shape.IsBuilt
  bounds : row.shape.ForBounds (· ≠ -0)
  varies : row.term.isConstant = true → IsRange row.shape
  name : ∀ name, row.name = some name → IsPlainName name

theorem IsAcceptedRow.mono {s s' : Symbols} {row : Row Float} (h : IsAcceptedRow s row)
    (hgrows : s.Grows s') : IsAcceptedRow s' row :=
  ⟨h.term.mono hgrows, h.built, h.bounds, h.varies, h.name⟩

theorem forBounds_ofLeft {P : Float → Prop} {bound : Float} (h : P bound) (r : Relation) :
    (Shape.ofLeft bound r).ForBounds P := by
  cases r <;> exact h

theorem forBounds_ofRight {P : Float → Prop} {bound : Float} (h : P bound) (r : Relation) :
    (Shape.ofRight r bound).ForBounds P := by
  cases r <;> exact h

/-- Of two sides the constant one is the bound. -/
theorem isAcceptedRow_relate {s : Symbols} {t u : Term Float} (ht : IsAcceptedTerm s t)
    (hu : IsAcceptedTerm s u) {r : Relation} {c : Constraint Float}
    (h : Constraint.relate t r u = .ok c) :
    ∃ row, c = .plain row ∧ row.name = none ∧ IsAcceptedRow s row := by
  unfold Constraint.relate at h
  split at h
  · cases h
  · cases h
  · rename_i _ hvaries
    cases h
    refine ⟨_, rfl, rfl, hu, Shape.isBuilt_ofLeft _ _, @forBounds_ofLeft (· ≠ -0) _ ht.constant r,
      fun hconstant => ?_, nofun⟩
    rw [hvaries] at hconstant
    cases hconstant
  · rename_i hvaries _
    cases h
    refine ⟨_, rfl, rfl, ht, Shape.isBuilt_ofRight _ _, @forBounds_ofRight (· ≠ -0) _ hu.constant r,
      fun hconstant => ?_, nofun⟩
    rw [hvaries] at hconstant
    cases hconstant

/-- What a relation is read as. -/
theorem isAcceptedRow_relation {tokens : List (Token Float)} (htokens : HasPlainNames tokens)
    {s s' : Symbols} {c : Constraint Float} (h : relation tokens s = (.ok c, s')) :
    ∃ row, c = .plain row ∧ row.name = none ∧ IsAcceptedRow s' row := by
  have hfirst : HasPlainNames (sides tokens).1 := fun name hname =>
    htokens name (mem_of_mem_sides.1 hname)
  have hothers : ∀ p ∈ (sides tokens).2, HasPlainNames p.2 := fun p hp name hname =>
    htokens name (mem_of_mem_sides.2 p hp hname)
  have hgrows : ∀ {ts : List (Token Float)} {s s' : Symbols} {t : Term Float},
      expression ts s = (.ok t, s') → s.Grows s' := by
    intro ts s s' t heq
    have hleads := grows_expression ts s
    rwa [heq] at hleads
  rw [relation] at h
  rcases hsides : sides tokens with ⟨lhs, _ | ⟨⟨l, middle⟩, _ | ⟨⟨r, upper⟩, _ | ⟨other, others⟩⟩⟩⟩
    <;> rw [hsides] at h hfirst hothers
  · cases h
  · obtain ⟨t, s₁, ht, h⟩ := action_bind_inv h
    obtain ⟨u, s₂, hu, h⟩ := action_bind_inv h
    obtain ⟨hrelate, rfl⟩ := action_lift_inv h
    exact isAcceptedRow_relate ((isAcceptedTerm_expression hfirst ht).mono (hgrows hu))
      (isAcceptedTerm_expression (hothers (l, middle) (List.mem_singleton_self _)) hu) hrelate
  · obtain ⟨t, s₁, ht, h⟩ := action_bind_inv h
    obtain ⟨u, s₂, hu, h⟩ := action_bind_inv h
    obtain ⟨x, s₃, hx, h⟩ := action_bind_inv h
    have hmiddle := hothers (l, middle) (List.mem_cons_self ..)
    have hlast := hothers (r, upper) (List.mem_cons_of_mem _ (List.mem_singleton_self _))
    cases hconstant : t.isConstant && x.isConstant with
    | false =>
        rw [hconstant] at h
        cases h
    | true =>
        rw [hconstant] at h
        obtain ⟨hrange, rfl⟩ := action_lift_inv h
        unfold Constraint.range Shape.ofRange at hrange
        split at hrange
        · rename_i hrelations
          cases hrange
          exact ⟨_, rfl, rfl, (isAcceptedTerm_expression hmiddle hu).mono (hgrows hx), hrelations,
            ⟨(isAcceptedTerm_expression hfirst ht).constant,
              (isAcceptedTerm_expression hlast hx).constant⟩, fun _ => trivial, fun _ hname => by cases hname⟩
        · cases hrange
  · cases h

/-! ### Guards -/

/-- Whether a variable has been declared binary. -/
def Symbols.IsBinary (s : Symbols) (v : Variable) : Prop :=
  ∃ e line, s.entries.get? v.name = some e ∧ e.kind = some (.binary, line)

theorem Symbols.IsBinary.mono {s s' : Symbols} {v : Variable} (h : s.IsBinary v)
    (hgrows : s.Grows s') : s'.IsBinary v := by
  obtain ⟨e, line, he, hkind⟩ := h
  obtain ⟨e', he', hentry⟩ := hgrows.entry _ e he
  obtain ⟨k, line', hkind', hbinary⟩ := hentry.kind .binary line hkind
  rw [hbinary rfl] at hkind'
  exact ⟨e', line', he', hkind'⟩

/-- What a guard has that has been read. -/
structure IsAcceptedGuard (s : Symbols) (g : Constraint Float) : Prop where
  plain : ∃ row, g = .plain row ∧ row.name = none ∧ IsAcceptedRow s row
  binary : ∀ v, Constraint.loneVariable? g.term = some v → s.IsBinary v

theorem IsAcceptedGuard.mono {s s' : Symbols} {g : Constraint Float} (h : IsAcceptedGuard s g)
    (hgrows : s.Grows s') : IsAcceptedGuard s' g := by
  obtain ⟨⟨row, heq, hname, hrow⟩, hbinary⟩ := h
  exact ⟨⟨row, heq, hname, hrow.mono hgrows⟩, fun v hv => (hbinary v hv).mono hgrows⟩

theorem isBinary_declareGuard {s : Symbols} {v : Variable} (hv : v ∈ s.variableSet) (line : Nat) :
    (declareGuard line v s).IsBinary v := by
  obtain ⟨e, he, _⟩ := Symbols.mem_variableSet_iff.mp hv
  refine ⟨{ e with kind := some (.binary, line) }, line, ?_, rfl⟩
  rw [declareGuard, Symbols.declareKind, Symbols.get?_note, if_pos rfl]
  show (s.entries.get? v.name).map _ = _
  rw [he]
  rfl

/-- What a guard is read as. If it tests a variable, this one becomes
binary. -/
theorem isAcceptedGuard_guard {line : Nat} {tokens : List (Token Float)}
    (htokens : HasPlainNames tokens) {s s' : Symbols} {g : Constraint Float}
    (h : guard line tokens s = (.ok g, s')) : IsAcceptedGuard s' g := by
  obtain ⟨c, s₁, hc, h⟩ := action_bind_inv h
  obtain ⟨row, rfl, hname, hrow⟩ := isAcceptedRow_relation htokens hc
  have hlone : ∀ v, Constraint.loneVariable? row.term = some v → row.term.occurring = [v] :=
    fun _ => occurring_of_loneVariable?
  dsimp only [Constraint.term, Constraint.row] at h
  rcases hoccurring : row.term.occurring with _ | ⟨v, _ | ⟨w, others⟩⟩
  · rw [hoccurring] at h
    cases h
    refine ⟨⟨row, rfl, hname, hrow⟩, fun v hv => ?_⟩
    rw [hlone v hv] at hoccurring
    cases hoccurring
  · rw [hoccurring] at h
    cases h
    refine ⟨⟨row, rfl, hname, hrow.mono (s₁.grows_declareGuard line v)⟩, fun w hw => ?_⟩
    have hmem : v ∈ row.term.occurring := by
      rw [hoccurring]
      exact List.mem_singleton_self v
    rw [hlone w hw] at hoccurring
    cases hoccurring
    exact isBinary_declareGuard (hrow.term.known v hmem).mem line
  · rw [hoccurring] at h
    cases h
    refine ⟨⟨row, rfl, hname, hrow⟩, fun v hv => ?_⟩
    rw [hlone v hv] at hoccurring
    cases hoccurring

/-! ### Constraints -/

/-- What a constraint has that has been read. -/
def IsAcceptedConstraint (s : Symbols) : Constraint Float → Prop
  | .plain row => IsAcceptedRow s row
  | .guarded g row => (IsAcceptedGuard s g ∧ g.IsSwitch) ∧ IsAcceptedRow s row

theorem IsAcceptedConstraint.mono {s s' : Symbols} {c : Constraint Float}
    (h : IsAcceptedConstraint s c) (hgrows : s.Grows s') : IsAcceptedConstraint s' c := by
  cases c with
  | plain row => exact IsAcceptedRow.mono h hgrows
  | guarded g row => exact ⟨⟨h.1.1.mono hgrows, h.1.2⟩, h.2.mono hgrows⟩

theorem isPlainName_splitName {tokens : List (Token Float)} (htokens : HasPlainNames tokens)
    (name : String) (h : (splitName tokens).1 = some name) : IsPlainName name := by
  unfold splitName at h
  split at h
  · cases h
    exact htokens name (List.mem_cons_self ..)
  · cases h

/-- What a constraint is read as. -/
theorem isAcceptedConstraint_of {line : Nat} {tokens : List (Token Float)}
    (htokens : HasPlainNames tokens) {s s' : Symbols} {c : Constraint Float}
    (h : constraintOf line tokens s = (.ok c, s')) : IsAcceptedConstraint s' c := by
  have hbehind : HasPlainNames (splitName tokens).2 := fun name hname =>
    htokens name (mem_of_mem_splitName hname)
  have hbody : HasPlainNames (splitArrow (splitName tokens).2).2 := fun name hname =>
    hbehind name (mem_of_mem_splitArrow.2 hname)
  rw [constraintOf_eq] at h
  obtain ⟨c₁, s₁, hc₁, h⟩ := action_bind_inv h
  obtain ⟨⟨shape, t, name⟩, rfl, hname, hrow⟩ := isAcceptedRow_relation hbody hc₁
  have hname : name = none := hname
  subst hname
  have hnamed : ∀ s', s₁.Grows s' → IsAcceptedRow s' ⟨shape, t, (splitName tokens).1⟩ :=
    fun s' hgrows => ⟨hrow.term.mono hgrows, hrow.built, hrow.bounds, hrow.varies,
      isPlainName_splitName htokens⟩
  rw [nameAs_plain] at h
  cases hguard : (splitArrow (splitName tokens).2).1 with
  | none =>
      rw [hguard] at h
      cases h
      exact hnamed _ (.refl _)
  | some guardTokens =>
      rw [hguard] at h
      obtain ⟨g, s₂, hg, h⟩ := action_bind_inv h
      have hgrows : s₁.Grows s₂ := by
        have hleads := grows_guard line guardTokens s₁
        rwa [hg] at hleads
      have hnames : HasPlainNames guardTokens := fun name hname =>
        hbehind name (mem_of_mem_splitArrow.1 guardTokens hguard hname)
      obtain ⟨hindicator, rfl⟩ := action_lift_inv h
      unfold Constraint.withIndicator at hindicator
      split at hindicator
      · rename_i hswitch
        cases hindicator
        exact ⟨⟨isAcceptedGuard_guard hnames hg, Constraint.isSwitch_of_isIndicator hswitch⟩,
          hnamed _ hgrows⟩
      · cases hindicator

theorem isAcceptedConstraint_statement {statement : Numbered} {s s' : Symbols}
    {c : Constraint Float} (h : constraintStatement statement s = (.ok c, s')) :
    IsAcceptedConstraint s' c := by
  obtain ⟨tokens, s₁, htokens, h⟩ := action_bind_inv h
  exact isAcceptedConstraint_of (isPlainName_of_tokenize (action_lift_inv htokens).1) h

theorem isAcceptedTerm_objectiveTerm {text : List Char} {s s' : Symbols} {t : Term Float}
    (h : Draft.objectiveTerm text s = (.ok t, s')) : IsAcceptedTerm s' t := by
  obtain ⟨tokens, s₁, htokens, h⟩ := action_bind_inv h
  have hnames := isPlainName_of_tokenize (action_lift_inv htokens).1
  exact isAcceptedTerm_expression (fun name hname => hnames name (mem_of_mem_splitName hname)) h

end LpText

end LinearProgram
