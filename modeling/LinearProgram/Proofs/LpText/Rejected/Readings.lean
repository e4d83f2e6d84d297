import LinearProgram.Proofs.LpText.Accepted.Constraints
import LinearProgram.Proofs.LpText.Rejected.States
import LinearProgram.Proofs.Model.Copies

/-!
# `LinearProgram.Proofs.LpText.Rejected.Readings`: one statement read in two states

A statement is read in two states, of which the second mirrors the
first. It is then read in both or in neither, and what is read in the
second one is a copy of what is read in the first.

* `Tally` says of two outcomes that both fail or both succeed with
  results that are related, and that the states are related again.
  `Tally.bind` puts readings together.
* `tally_expression`, `tally_relation`, `tally_constraintStatement` go
  through the readings. What has been read stays a copy while more is
  read (`IsMirroredTerm.later`).
* The kind of a variable is asked in one place, where a guard is
  attached, and there it has just become binary in both states.
-/

set_option autoImplicit false

namespace LinearProgram.LpText

open Symbols (Mirrors Later)

variable {forced forced' : Option String} {s t s' t' : Symbols}

/-! ### Outcomes -/

/-- Whether two readings, begun in the states `s` and `t`, both succeed
with related results or both fail. -/
inductive Tally (forced : Option String) (s t : Symbols) {α β : Type}
    (R : Symbols → Symbols → α → β → Prop) :
    Except (ReadError Float) α × Symbols → Except (ReadError Float) β × Symbols → Prop
  | ok {a : α} {b : β} {s' t' : Symbols} (later : Later forced s t s' t') (h : R s' t' a b) :
    Tally forced s t R (.ok a, s') (.ok b, t')
  | error {e e' : ReadError Float} {s' t' : Symbols} (later : Later forced s t s' t') :
    Tally forced s t R (.error e, s') (.error e', t')

namespace Tally

variable {α β γ δ : Type} {R : Symbols → Symbols → α → β → Prop}
  {R' : Symbols → Symbols → γ → δ → Prop}

/-- What is related later on is related from the beginning. -/
theorem later {p : Except (ReadError Float) α × Symbols} {q : Except (ReadError Float) β × Symbols}
    (h : Later forced s t s' t') (h' : Tally forced s' t' R p q) : Tally forced s t R p q := by
  cases h' with
  | ok hlater hR => exact .ok (h.trans hlater) hR
  | error hlater => exact .error (h.trans hlater)

theorem bind {x : Reading Float α} {y : Reading Float β} {f : α → Reading Float γ}
    {g : β → Reading Float δ} (h : Tally forced s t R (x s) (y t))
    (hnext : ∀ a b s' t', Later forced s t s' t' → R s' t' a b →
      Tally forced s' t' R' (f a s') (g b t')) :
    Tally forced s t R' ((x >>= f) s) ((y >>= g) t) := by
  rw [Action.bind_apply, Action.bind_apply]
  cases hx : x s
  cases hy : y t
  rw [hx, hy] at h
  cases h with
  | ok hlater hR => exact (hnext _ _ _ _ hlater hR).later hlater
  | error hlater => exact .error hlater

/-- Failing leaves the states alone. -/
theorem throw (h : s.Mirrors forced t) (e e' : ReadError Float) :
    Tally forced s t R ((MonadExcept.throw e : Reading Float α) s)
      ((MonadExcept.throw e' : Reading Float β) t) := .error (.refl h)

end Tally

/-! ### Terms -/

/-- Whether a term that was read in one state is a copy of one that was
read in the other, variables with the same names for one another. -/
structure IsMirroredTerm (s t : Symbols) (a b : Term Float) : Prop where
  known : ∀ v ∈ a.occurring, v ∈ s.variableSet
  copy : a.IsCopy t.namesake b

/-- What has been read stays a copy while more is read. -/
theorem IsMirroredTerm.later {a b : Term Float} (h : IsMirroredTerm s t a b)
    (hst : s.Mirrors forced t) (hlater : Later forced' s t s' t') : IsMirroredTerm s' t' a b :=
  ⟨fun v hv => hlater.left.mem (h.known v hv), h.copy.congr fun v hv =>
    (hst.namesake_eq hlater.right (h.known v hv)).symm⟩

theorem isMirroredTerm_ofConstant (s t : Symbols) (c : Float) :
    IsMirroredTerm s t (.ofConstant c) (.ofConstant c) :=
  ⟨fun _ hv => absurd hv List.not_mem_nil, Term.isCopy_ofConstant c⟩

theorem isMirroredTerm_weighted {v : Variable} (hv : v ∈ s.variableSet) (c : Float) :
    IsMirroredTerm s t (.weighted v c) (.weighted (t.namesake v) c) := by
  refine ⟨fun w hw => ?_, Term.isCopy_weighted v c⟩
  rcases Term.mem_occurring_addTerm hw with hw | rfl
  · exact absurd hw List.not_mem_nil
  · exact hv

theorem IsMirroredTerm.scale {a b : Term Float} (h : IsMirroredTerm s t a b) (factor : Float) :
    IsMirroredTerm s t (a.scale factor) (b.scale factor) :=
  ⟨fun v hv => h.known v (Term.mem_occurring_scale hv), h.copy.scale factor⟩

theorem IsMirroredTerm.add {a b a' b' : Term Float} (h : IsMirroredTerm s t a b)
    (h' : IsMirroredTerm s t a' b') : IsMirroredTerm s t (a + a') (b + b') :=
  ⟨fun v hv => (Term.mem_occurring_add hv).elim (h.known v) (h'.known v),
    h.copy.add h'.copy Mirrors.namesake_injective h.known h'.known⟩

/-- A product is read in both states, with the variable that was found
before. -/
theorem tally_factors {tokens : List (Token Float)} {c : Float} {v : Option Variable}
    {isOpen : Bool} (h : s.Mirrors forced t) (hv : ∀ w, v = some w → w ∈ s.variableSet) :
    Tally forced s t IsMirroredTerm (factors c v isOpen tokens s)
      (factors c (v.map t.namesake) isOpen tokens t) := by
  induction tokens generalizing c v isOpen s t with
  | nil =>
      rw [factors, factors]
      split
      · exact .throw h _ _
      · refine .ok (.refl h) ?_
        cases v with
        | none => exact isMirroredTerm_ofConstant s t c
        | some w => exact isMirroredTerm_weighted (hv w rfl) c
  | cons token rest ih =>
      cases token with
      | number value => exact ih h hv
      | name name =>
          cases v with
          | some w => exact .throw h _ _
          | none =>
              have hlater := h.mention name
              have hmem : ∀ w, some (s.mention name).1 = some w →
                  w ∈ (s.mention name).2.variableSet := by
                intro w hw
                cases hw
                exact s.mem_mention name
              have hrest := @ih _ _ c _ false hlater.mirrors hmem
              rw [Option.map_some, Symbols.namesake_mention] at hrest
              exact hrest.later hlater
      | star =>
          rw [factors, factors]
          split
          · exact .throw h _ _
          · exact ih h hv
      | plus => exact .throw h _ _
      | minus => exact .throw h _ _
      | colon => exact .throw h _ _
      | arrow => exact .throw h _ _
      | relation r => exact .throw h _ _

theorem tally_addSummands {parts : List (Bool × List (Token Float))} {a b : Term Float}
    (h : s.Mirrors forced t) (hab : IsMirroredTerm s t a b) :
    Tally forced s t IsMirroredTerm (addSummands a parts s) (addSummands b parts t) := by
  induction parts generalizing a b s t with
  | nil => exact .ok (.refl h) hab
  | cons p rest ih =>
      obtain ⟨negative, tokens⟩ := p
      refine Tally.bind (tally_factors (v := none) h nofun) fun x y s' t' hlater hxy => ?_
      exact ih hlater.mirrors ((hab.later h hlater).add (hxy.scale _))

/-- An expression is read in both states. -/
theorem tally_expression (h : s.Mirrors forced t) (tokens : List (Token Float)) :
    Tally forced s t IsMirroredTerm (expression tokens s) (expression tokens t) := by
  rw [expression]
  split
  · exact .throw h _ _
  · exact tally_addSummands h (isMirroredTerm_ofConstant s t 0)

/-! ### Constraints -/

/-- Whether a constraint that was read in one state is a copy of one that
was read in the other. -/
structure IsMirroredConstraint (s t : Symbols) (c d : Constraint Float) : Prop where
  known : ∀ v, c.Occurs v → v ∈ s.variableSet
  copy : c.IsCopy t.namesake d

theorem IsMirroredConstraint.later {c d : Constraint Float} (h : IsMirroredConstraint s t c d)
    (hst : s.Mirrors forced t) (hlater : Later forced' s t s' t') :
    IsMirroredConstraint s' t' c d :=
  ⟨fun v hv => hlater.left.mem (h.known v hv), h.copy.congr fun v hv =>
    (hst.namesake_eq hlater.right (h.known v hv)).symm⟩

theorem isMirroredConstraint_plain {a b : Term Float} (h : IsMirroredTerm s t a b)
    (shape : Shape Float) (name : Option String) :
    IsMirroredConstraint s t (.plain ⟨shape, a, name⟩) (.plain ⟨shape, b, name⟩) :=
  ⟨h.known, rfl, h.copy, rfl⟩

theorem IsMirroredConstraint.nameAs {c d : Constraint Float} (h : IsMirroredConstraint s t c d)
    (name : Option String) : IsMirroredConstraint s t (nameAs c name) (nameAs d name) := by
  obtain ⟨hknown, hcopy⟩ := h
  cases name with
  | none => exact ⟨hknown, hcopy⟩
  | some name =>
      cases c with
      | plain a =>
          cases d with
          | plain b => exact ⟨hknown, hcopy.1, hcopy.2.1, rfl⟩
          | guarded k b => cases hcopy
      | guarded g a =>
          cases d with
          | plain b => cases hcopy
          | guarded k b => exact ⟨hknown, hcopy.1, hcopy.2.1, hcopy.2.2.1, rfl⟩

/-- Two sides are related alike, or refused alike. -/
theorem tally_relate (h : s.Mirrors forced t) {a b a' b' : Term Float}
    (hab : IsMirroredTerm s t a b) (hab' : IsMirroredTerm s t a' b') (r : Relation) :
    Tally forced s t IsMirroredConstraint
      ((Action.lift .model (Constraint.relate a r a') : Reading Float _) s)
      ((Action.lift .model (Constraint.relate b r b') : Reading Float _) t) := by
  have hconstant := hab.copy.isConstant_eq
  have hconstant' := hab'.copy.isConstant_eq
  unfold Constraint.relate
  rw [hconstant, hconstant']
  cases a.isConstant with
  | true =>
      cases a'.isConstant with
      | true => exact .error (.refl h)
      | false =>
          rw [hab.copy.2]
          exact .ok (.refl h) (isMirroredConstraint_plain hab' _ none)
  | false =>
      cases a'.isConstant with
      | true =>
          rw [hab'.copy.2]
          exact .ok (.refl h) (isMirroredConstraint_plain hab _ none)
      | false => exact .error (.refl h)

/-- What a constraint relates is read in both states. -/
theorem tally_relation (h : s.Mirrors forced t) (tokens : List (Token Float)) :
    Tally forced s t IsMirroredConstraint (relation tokens s) (relation tokens t) := by
  rw [relation]
  rcases sides tokens with ⟨lhs, _ | ⟨⟨l, middle⟩, _ | ⟨⟨r, upper⟩, _ | ⟨other, others⟩⟩⟩⟩
  · exact .throw h _ _
  · refine Tally.bind (tally_expression h _) fun a b s₁ t₁ h₁ hab => ?_
    refine Tally.bind (tally_expression h₁.mirrors _) fun a' b' s₂ t₂ h₂ hab' => ?_
    exact tally_relate h₂.mirrors (hab.later h₁.mirrors h₂) hab' _
  · refine Tally.bind (tally_expression h _) fun a b s₁ t₁ h₁ hab => ?_
    refine Tally.bind (tally_expression h₁.mirrors _) fun a' b' s₂ t₂ h₂ hab' => ?_
    refine Tally.bind (tally_expression h₂.mirrors _) fun a'' b'' s₃ t₃ h₃ hab'' => ?_
    rw [hab.copy.isConstant_eq, hab''.copy.isConstant_eq, hab.copy.2, hab''.copy.2]
    split
    · unfold Constraint.range Shape.ofRange
      split
      · exact .ok (.refl h₃.mirrors)
          (isMirroredConstraint_plain (hab'.later h₂.mirrors h₃) _ none)
      · exact .error (.refl h₃.mirrors)
    · exact .throw h₃.mirrors _ _
  · exact .throw h _ _

/-! ### Guards -/

/-- Whether a kind has been given to the variable that a guard tests. -/
def TestsBinary (s : Symbols) (g : Constraint Float) : Prop :=
  ∀ v, Constraint.loneVariable? g.term = some v → (s.registry.attributes v).kind = .binary

/-- A guard is read in both states, and what it tests is binary. -/
theorem tally_guard (h : s.Mirrors forced t) (line line' : Nat) (tokens : List (Token Float)) :
    Tally forced s t
      (fun s t c d => IsMirroredConstraint s t c d ∧ TestsBinary s c ∧ TestsBinary t d)
      (guard line tokens s) (guard line' tokens t) := by
  refine Tally.bind (tally_relation h tokens) fun c d s₁ t₁ h₁ hcd => ?_
  have hterm := hcd.copy.term
  have hknown : ∀ v ∈ c.term.occurring, v ∈ s₁.variableSet := fun v hv =>
    hcd.known v (Constraint.occurs_of_mem_term hv)
  have hperm := hterm.occurring_perm fun v hv w hw =>
    Mirrors.namesake_injective v w (hknown v hv) (hknown w hw)
  -- Without a single variable in it, nothing is tested.
  have huntested : ∀ {s : Symbols} {g : Constraint Float}, (∀ v, g.term.occurring ≠ [v]) →
      TestsBinary s g := fun hne v hv => absurd (occurring_of_loneVariable? hv) (hne v)
  have htested : ∀ {s : Symbols} {g : Constraint Float} {v : Variable}, s.IsSound →
      v ∈ s.variableSet → g.term.occurring = [v] →
      ∀ line, TestsBinary (declareGuard line v s) g := by
    intro s g v hs hv hg line w hw
    rw [occurring_of_loneVariable? hw] at hg
    cases hg
    exact attributes_declareGuard hs line hv
  rcases hleft : c.term.occurring with _ | ⟨v, _ | ⟨w, others⟩⟩ <;> rw [hleft] at hperm
  · have hright := List.perm_nil.mp hperm
    rw [hright]
    refine .ok (.refl h₁.mirrors) ⟨hcd, huntested fun v => ?_, huntested fun v => ?_⟩
    · simp [hleft]
    · simp [hright]
  · have hright : d.term.occurring = [t₁.namesake v] := List.perm_singleton.mp hperm
    have hv : v ∈ s₁.variableSet := hknown v (by rw [hleft]; exact List.mem_singleton_self v)
    have hguard := h₁.mirrors.declareGuard hv line line'
    rw [hright]
    exact .ok hguard ⟨hcd.later h₁.mirrors hguard, htested h₁.mirrors.left hv hleft line,
      htested h₁.mirrors.right (h₁.mirrors.known v hv) hright line'⟩
  · have hlength := hperm.length_eq
    rcases hright : d.term.occurring with _ | ⟨v', _ | ⟨w', others'⟩⟩ <;> rw [hright] at hlength
    · simp at hlength
    · simp at hlength
    · refine .ok (.refl h₁.mirrors) ⟨hcd, huntested fun v => ?_, huntested fun v => ?_⟩
      · simp [hleft]
      · simp [hright]

/-- Where what is tested is binary, a constraint is a guard by what is
written in it. -/
theorem isIndicator_of_testsBinary {g : Constraint Float} (h : TestsBinary s g) :
    g.isIndicator s.registry
      = ((Constraint.switchValue? g.shape).isSome && (Constraint.loneVariable? g.term).isSome) := by
  unfold Constraint.isIndicator Constraint.indicatorLiteral?
  cases Constraint.switchValue? g.shape with
  | none => rfl
  | some value =>
      cases hv : Constraint.loneVariable? g.term with
      | none => rfl
      | some v =>
          dsimp only
          rw [if_pos (h v hv)]
          rfl

/-- A guard is attached in both states, or in neither. -/
theorem tally_attach (h : s.Mirrors forced t) {c d g k : Constraint Float}
    (hcd : IsMirroredConstraint s t c d) (hgk : IsMirroredConstraint s t g k)
    (hg : TestsBinary s g) (hk : TestsBinary t k) :
    Tally forced s t IsMirroredConstraint (attach c g s) (attach d k t) := by
  have hlone : Constraint.loneVariable? k.term = (Constraint.loneVariable? g.term).map t.namesake :=
    hgk.copy.term.loneVariable?_eq fun v hv w hw =>
      Mirrors.namesake_injective v w (hgk.known v (Constraint.occurs_of_mem_term hv))
        (hgk.known w (Constraint.occurs_of_mem_term hw))
  have hsame : k.isIndicator t.registry = g.isIndicator s.registry := by
    rw [isIndicator_of_testsBinary hg, isIndicator_of_testsBinary hk, hlone,
      hgk.copy.shape_eq, Option.isSome_map]
  unfold attach Constraint.withIndicator
  rw [hsame]
  split
  · refine .ok (.refl h) ⟨fun v hv => ?_, hgk.copy, hcd.copy.row⟩
    rcases hv with hv | hv
    · exact hcd.known v (Constraint.occurs_of_mem_term hv)
    · exact hgk.known v hv
  · exact .error (.refl h)

/-! ### Statements -/

/-- A constraint is read in both states, or in neither. -/
theorem tally_constraintStatement (h : s.Mirrors forced t) {st st' : Numbered}
    (htext : st.text = st'.text) :
    Tally forced s t IsMirroredConstraint (constraintStatement st s)
      (constraintStatement st' t) := by
  rw [constraintStatement, constraintStatement, htext]
  cases tokenize st'.text with
  | error e => exact .error (.refl h)
  | ok tokens =>
      show Tally forced s t _ (constraintOf st.line tokens s) (constraintOf st'.line tokens t)
      rw [constraintOf_eq, constraintOf_eq]
      refine Tally.bind (tally_relation h _) fun c d s₁ t₁ h₁ hcd => ?_
      have hnamed := hcd.nameAs (splitName tokens).1
      cases (splitArrow (splitName tokens).2).1 with
      | none => exact .ok (.refl h₁.mirrors) hnamed
      | some guardTokens =>
          refine Tally.bind (tally_guard h₁.mirrors st.line st'.line guardTokens)
            fun g k s₂ t₂ h₂ hgk => ?_
          exact tally_attach h₂.mirrors (hnamed.later h₁.mirrors h₂) hgk.1 hgk.2.1 hgk.2.2

/-- The term of an objective is read in both states, or in neither. -/
theorem tally_objectiveTerm (h : s.Mirrors forced t) (text : List Char) :
    Tally forced s t IsMirroredTerm (Draft.objectiveTerm text s) (Draft.objectiveTerm text t) := by
  rw [Draft.objectiveTerm]
  cases tokenize text with
  | error e => exact .error (.refl h)
  | ok tokens => exact tally_expression h _

/-- Bounds are read in both states, or in neither. -/
theorem tally_boundStatement (h : s.Mirrors forced t) {st st' : Numbered}
    (htext : st.text = st'.text) :
    Tally forced s t (fun _ _ _ _ => True) (boundStatement st s) (boundStatement st' t) := by
  rw [Draft.boundStatement_eq, Draft.boundStatement_eq, boundClause, boundClause, htext]
  cases tokenize st'.text with
  | error e => exact .error (.refl h)
  | ok tokens =>
      dsimp only
      cases boundOf (String.ofList st'.text) tokens with
      | error e => exact .error (.refl h)
      | ok clause => exact .ok (h.declareBounds clause.name _ _ _ _) trivial

end LinearProgram.LpText
