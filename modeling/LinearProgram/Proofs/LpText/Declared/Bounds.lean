import LinearProgram.Proofs.LpText.Rejected.Traces

/-!
# `LinearProgram.Proofs.LpText.Declared.Bounds`: the bounds that count

A statement on bounds has one of nine forms (`IsBoundForm`), each of
which gives a variable one side of its bounds, or both. What a statement
gives does not depend on what has been read before, so the clauses of a
text can be listed beforehand (`boundClauses`). Of what they say of a
side the last one counts.

* `boundClause_eq_ok_iff`: the statements that are read are those of the
  nine forms.
* `lower_foldl_toBounds` and `upper_foldl_toBounds`: each side is settled
  by the last clause that gives it.
* `bounds_of_read`: a side that is never given is zero below. Above, it
  is infinity or, for a binary variable, one. A binary variable that is
  given a lower bound alone is the exception: it is not bounded above
  (`loneLower_unbounded`).
-/

set_option autoImplicit false

namespace LinearProgram.LpText

/-! ### The forms of a statement -/

/-- A number behind any signs, and its value. -/
inductive IsSigned : List (Token Float) → Float → Prop
  | number (x : Float) : IsSigned [.number x] x
  | plus {tokens : List (Token Float)} {x : Float} (h : IsSigned tokens x) :
    IsSigned (.plus :: tokens) x
  | minus {tokens : List (Token Float)} {x : Float} (h : IsSigned tokens x) :
    IsSigned (.minus :: tokens) (-x)

/-- The forms of a statement on bounds, and what they say. The name may
stand on either side of a relation, or in the middle of two. -/
inductive IsBoundForm : List (Token Float) → BoundClause → Prop
  | free {name word : String} (h : folded word.toList = "free".toList) :
    IsBoundForm [.name name, .name word]
      ⟨name, some (-Binary64.infinity), some Binary64.infinity⟩
  | nameAtMost {name : String} {tokens : List (Token Float)} {x : Float}
    (h : IsSigned tokens x) :
    IsBoundForm (.name name :: .relation .atMost :: tokens) ⟨name, none, some x⟩
  | nameAtLeast {name : String} {tokens : List (Token Float)} {x : Float}
    (h : IsSigned tokens x) :
    IsBoundForm (.name name :: .relation .atLeast :: tokens) ⟨name, some x, none⟩
  | nameEqual {name : String} {tokens : List (Token Float)} {x : Float}
    (h : IsSigned tokens x) :
    IsBoundForm (.name name :: .relation .equal :: tokens) ⟨name, some x, some x⟩
  | numberAtMost {name : String} {tokens : List (Token Float)} {x : Float}
    (h : IsSigned tokens x) :
    IsBoundForm (tokens ++ [.relation .atMost, .name name]) ⟨name, some x, none⟩
  | numberAtLeast {name : String} {tokens : List (Token Float)} {x : Float}
    (h : IsSigned tokens x) :
    IsBoundForm (tokens ++ [.relation .atLeast, .name name]) ⟨name, none, some x⟩
  | numberEqual {name : String} {tokens : List (Token Float)} {x : Float}
    (h : IsSigned tokens x) :
    IsBoundForm (tokens ++ [.relation .equal, .name name]) ⟨name, some x, some x⟩
  | rising {name : String} {left right : List (Token Float)} {x y : Float}
    (hleft : IsSigned left x) (hright : IsSigned right y) :
    IsBoundForm (left ++ .relation .atMost :: .name name :: .relation .atMost :: right)
      ⟨name, some x, some y⟩
  | falling {name : String} {left right : List (Token Float)} {x y : Float}
    (hleft : IsSigned left x) (hright : IsSigned right y) :
    IsBoundForm (left ++ .relation .atLeast :: .name name :: .relation .atLeast :: right)
      ⟨name, some y, some x⟩

/-- The sign in front of the rest of a number. -/
def signed (negative : Bool) (x : Float) : Float := if negative then -x else x

theorem signed_mul (negative : Bool) (x : Float) : signed negative 1 * x = signed negative x := by
  cases negative with
  | false => exact Binary64.one_mul x
  | true => exact Binary64.neg_one_mul x

theorem neg_signed (negative : Bool) (x : Float) : -signed negative x = signed (!negative) x := by
  cases negative with
  | false => rfl
  | true => exact Binary64.neg_neg x

theorem signed_neg (negative : Bool) (x : Float) : signed negative (-x) = signed (!negative) x := by
  cases negative with
  | false => rfl
  | true => exact Binary64.neg_neg x

theorem IsSigned.signedNumber_eq {tokens : List (Token Float)} {x : Float} (h : IsSigned tokens x)
    (negative : Bool) : signedNumber (signed negative 1) tokens = .ok (signed negative x) := by
  induction h generalizing negative with
  | number x => exact congrArg Except.ok (signed_mul negative x)
  | plus h ih => exact ih negative
  | minus h ih => rw [signedNumber, neg_signed, ih, signed_neg]

theorem isSigned_of_signedNumber {tokens : List (Token Float)} {negative : Bool} {x : Float}
    (h : signedNumber (signed negative 1) tokens = .ok x) :
    IsSigned tokens (signed negative x) := by
  -- The sign is carried along, and it is its own inverse.
  have htwice : ∀ y : Float, signed negative (signed negative y) = y := by
    intro y
    cases negative with
    | false => rfl
    | true => exact Binary64.neg_neg y
  induction tokens generalizing negative with
  | nil => cases h
  | cons t rest ih =>
      cases t with
      | plus => exact .plus (ih h htwice)
      | minus =>
          rw [signedNumber, neg_signed] at h
          have hrest := (ih h fun y => by cases negative <;> simp [signed, Binary64.neg_neg]).minus
          rwa [neg_signed, Bool.not_not] at hrest
      | number value =>
          cases rest with
          | nil =>
              have hx : signed negative value = x := by
                rw [← signed_mul]
                exact Except.ok.inj h
              rw [← hx, htwice]
              exact .number value
          | cons u rest => cases h
      | name name => cases h
      | star => cases h
      | colon => cases h
      | arrow => cases h
      | relation r => cases h

/-- A number behind signs is read as its value. -/
theorem signedNumber_eq_ok_iff {tokens : List (Token Float)} {x : Float} :
    signedNumber 1 tokens = .ok x ↔ IsSigned tokens x :=
  ⟨fun h => @isSigned_of_signedNumber tokens false x h, fun h => h.signedNumber_eq false⟩

/-- No relation stands among the tokens of a number. -/
theorem IsSigned.isInner {tokens : List (Token Float)} {x : Float} (h : IsSigned tokens x) :
    ∀ t ∈ tokens, IsInner t := by
  induction h with
  | number x =>
      intro t ht
      rw [List.mem_singleton.mp ht]
      exact ⟨[], trivial⟩
  | plus h ih =>
      intro t ht
      rcases List.mem_cons.mp ht with rfl | ht
      · exact ⟨[], trivial⟩
      · exact ih t ht
  | minus h ih =>
      intro t ht
      rcases List.mem_cons.mp ht with rfl | ht
      · exact ⟨[], trivial⟩
      · exact ih t ht

theorem isInner_name (name : String) : ∀ t ∈ [Token.name (K := Float) name], IsInner t := by
  intro t ht
  rw [List.mem_singleton.mp ht]
  exact ⟨[(⟨0, name⟩, 0)], _, List.mem_singleton_self _, rfl⟩

/-- Cut at the relations, tokens can be put together again. -/
theorem eq_of_sides (tokens : List (Token Float)) :
    tokens = (sides tokens).1 ++ (sides tokens).2.flatMap fun p => .relation p.1 :: p.2 := by
  induction tokens with
  | nil => rfl
  | cons t rest ih =>
      cases t with
      | relation r =>
          show _ = .relation r :: ((sides rest).1
            ++ (sides rest).2.flatMap fun p => .relation p.1 :: p.2)
          rw [← ih]
      | _ => exact congrArg (List.cons _) ih

theorem IsSigned.freeName?_append {tokens : List (Token Float)} {x : Float} (h : IsSigned tokens x)
    (rest : List (Token Float)) : freeName? (tokens ++ rest) = none := by
  cases h <;> rfl

theorem boundOf_nameFirst {rhs : List (Token Float)} {x : Float} (h : IsSigned rhs x)
    (text name : String) (r : Relation) :
    boundOf text (.name name :: .relation r :: rhs) = .ok (clauseOf name r x) := by
  have hsides : sides (.name name :: .relation r :: rhs) = ([.name name], [(r, rhs)]) :=
    sides_one (isInner_name name) h.isInner r
  rw [boundOf, show freeName? (.name name :: .relation r :: rhs) = none from rfl, hsides]
  show (signedNumber 1 rhs).map (clauseOf name r) = _
  rw [signedNumber_eq_ok_iff.mpr h]
  rfl

theorem boundOf_numberFirst {lhs : List (Token Float)} {x : Float} (h : IsSigned lhs x)
    (text name : String) (r : Relation) :
    boundOf text (lhs ++ [.relation r, .name name]) = .ok (clauseOf name r.flip x) := by
  have hread : boundOf text (lhs ++ [.relation r, .name name])
      = (signedNumber 1 lhs).map (clauseOf name r.flip) := by
    rw [boundOf, h.freeName?_append, sides_one h.isInner (isInner_name name)]
    cases h <;> rfl
  rw [hread, signedNumber_eq_ok_iff.mpr h]
  rfl

theorem boundOf_nameBetween {left right : List (Token Float)} {x y : Float}
    (hleft : IsSigned left x) (hright : IsSigned right y) (text name : String) (l r : Relation) :
    boundOf text (left ++ .relation l :: .name name :: .relation r :: right)
      = rangeClause name l r x y := by
  have hsides : sides (left ++ .relation l :: .name name :: .relation r :: right)
      = (left, [(l, [.name name]), (r, right)]) :=
    sides_two hleft.isInner (isInner_name name) hright.isInner l r
  have hx := signedNumber_eq_ok_iff.mpr hleft
  have hy := signedNumber_eq_ok_iff.mpr hright
  rw [boundOf, hleft.freeName?_append, hsides]
  simp only [hx, hy]

/-- Each form is read as what it says. -/
theorem IsBoundForm.boundOf_eq {tokens : List (Token Float)} {clause : BoundClause}
    (h : IsBoundForm tokens clause) (text : String) : boundOf text tokens = .ok clause := by
  cases h with
  | free h =>
      rw [boundOf, freeName?, if_pos (beq_iff_eq.mpr h)]
  | nameAtMost h => exact boundOf_nameFirst h text _ .atMost
  | nameAtLeast h => exact boundOf_nameFirst h text _ .atLeast
  | nameEqual h => exact boundOf_nameFirst h text _ .equal
  | numberAtMost h => exact boundOf_numberFirst h text _ .atMost
  | numberAtLeast h => exact boundOf_numberFirst h text _ .atLeast
  | numberEqual h => exact boundOf_numberFirst h text _ .equal
  | rising hleft hright => exact boundOf_nameBetween hleft hright text _ .atMost .atMost
  | falling hleft hright => exact boundOf_nameBetween hleft hright text _ .atLeast .atLeast

/-- What is read has one of the forms. -/
theorem isBoundForm_of_boundOf {text : String} {tokens : List (Token Float)} {clause : BoundClause}
    (h : boundOf text tokens = .ok clause) : IsBoundForm tokens clause := by
  have htokens := eq_of_sides tokens
  -- A clause of one relation gives what the number is.
  have hclause : ∀ {ts : List (Token Float)} {name : String} {r : Relation},
      (signedNumber 1 ts).map (clauseOf name r) = .ok clause →
        ∃ x, IsSigned ts x ∧ clause = clauseOf name r x := by
    intro ts name r hmap
    cases hnumber : signedNumber 1 ts with
    | error e =>
        rw [hnumber] at hmap
        cases hmap
    | ok x =>
        rw [hnumber] at hmap
        exact ⟨x, signedNumber_eq_ok_iff.mp hnumber, (Except.ok.inj hmap).symm⟩
  rw [boundOf] at h
  split at h
  · rename_i name hfree
    cases h
    unfold freeName? at hfree
    split at hfree
    · split at hfree
      · rename_i hword
        cases hfree
        exact .free (beq_iff_eq.mp hword)
      · cases hfree
    · cases hfree
  split at h
  · rename_i name r rhs hsides
    obtain ⟨x, hx, rfl⟩ := hclause h
    rw [hsides] at htokens
    simp only [List.flatMap_cons, List.flatMap_nil, List.append_nil, List.singleton_append]
      at htokens
    rw [htokens]
    cases r with
    | atMost => exact .nameAtMost hx
    | equal => exact .nameEqual hx
    | atLeast => exact .nameAtLeast hx
  · rename_i lhs r name _ hsides
    obtain ⟨x, hx, rfl⟩ := hclause h
    rw [hsides] at htokens
    simp only [List.flatMap_cons, List.flatMap_nil, List.append_nil] at htokens
    rw [htokens]
    cases r with
    | atMost => exact .numberAtMost hx
    | equal => exact .numberEqual hx
    | atLeast => exact .numberAtLeast hx
  · cases h
  · rename_i lhs l name r rhs hsides
    rw [hsides] at htokens
    simp only [List.flatMap_cons, List.flatMap_nil, List.append_nil] at htokens
    rw [htokens]
    split at h
    · rename_i x y hx hy
      have hx := signedNumber_eq_ok_iff.mp hx
      have hy := signedNumber_eq_ok_iff.mp hy
      unfold rangeClause at h
      split at h
      · cases h
        exact .rising hx hy
      · cases h
        exact .falling hx hy
      · cases h
    · cases h
    · cases h
  · cases h
  · cases h

/-- The statements that are read are those of the nine forms. -/
theorem boundClause_eq_ok_iff {statement : Numbered} {clause : BoundClause} :
    boundClause statement = .ok clause
      ↔ ∃ tokens, tokenize statement.text = .ok tokens ∧ IsBoundForm tokens clause := by
  rw [boundClause]
  cases tokenize statement.text with
  | error e =>
      constructor
      · intro h
        cases h
      · rintro ⟨_, htokens, _⟩
        cases htokens
  | ok tokens =>
      refine ⟨fun h => ⟨tokens, rfl, isBoundForm_of_boundOf h⟩, ?_⟩
      rintro ⟨_, htokens, h⟩
      cases htokens
      exact h.boundOf_eq _

/-- A statement that is read gives at least one side. -/
theorem isSome_of_boundClause {statement : Numbered} {clause : BoundClause}
    (h : boundClause statement = .ok clause) :
    clause.lower.isSome = true ∨ clause.upper.isSome = true := by
  obtain ⟨tokens, _, hform⟩ := boundClause_eq_ok_iff.mp h
  cases hform with
  | free => exact .inl rfl
  | nameAtMost => exact .inr rfl
  | nameAtLeast => exact .inl rfl
  | nameEqual => exact .inl rfl
  | numberAtMost => exact .inl rfl
  | numberAtLeast => exact .inr rfl
  | numberEqual => exact .inl rfl
  | rising => exact .inl rfl
  | falling => exact .inl rfl

/-! ### The clauses of a text -/

/-- What a part says of bounds, if it is a statement on them that can be
read. -/
def Part.clause? : Part → Option BoundClause
  | .bounds statement => (boundClause statement).toOption
  | _ => none

theorem eq_ok_of_clause? {statement : Numbered} {clause : BoundClause}
    (h : Part.clause? (.bounds statement) = some clause) : boundClause statement = .ok clause := by
  rw [Part.clause?] at h
  cases hread : boundClause statement with
  | error e =>
      rw [hread] at h
      cases h
  | ok c =>
      rw [hread] at h
      exact congrArg Except.ok (Option.some.inj h)

/-- The clauses of a text, in the order of its statements. -/
def boundClauses (text : String) : List BoundClause := (partsOf text).filterMap Part.clause?

/-- The lower bound that a clause gives a name. -/
def BoundClause.lower? (name : String) (clause : BoundClause) : Option Float :=
  if name = clause.name then clause.lower else none

/-- The upper bound that a clause gives a name. -/
def BoundClause.upper? (name : String) (clause : BoundClause) : Option Float :=
  if name = clause.name then clause.upper else none

/-- The lower bound that a text gives a name last. -/
def lastLower (text name : String) : Option Float :=
  ((boundClauses text).filterMap (·.lower? name)).getLast?

/-- The upper bound that a text gives a name last. -/
def lastUpper (text name : String) : Option Float :=
  ((boundClauses text).filterMap (·.upper? name)).getLast?

/-- The clause, if the outcome is one. -/
def Outcome.clause? : Outcome → Option BoundClause
  | .bounds _ clause => some clause
  | _ => none

/-- The clauses among the outcomes are those of the text, whatever was
said of names before. -/
theorem filterMap_clause?_answers (s : Symbols) (parts : List Part) :
    (answers s parts).1.filterMap Outcome.clause? = parts.filterMap Part.clause? := by
  have hpart : ∀ (s : Symbols) (part : Part), (answer s part).1.clause? = part.clause? := by
    intro s part
    cases hbounds : part with
    | bounds st =>
        rw [answer, Part.clause?]
        cases boundClause st <;> rfl
    | _ =>
        have hyields := answer_yields s part
        rw [hbounds] at hyields
        revert hyields
        generalize (answer s _).1 = o
        intro hyields
        cases o with
        | bounds line clause => exact hyields.elim
        | _ => rfl
  induction parts generalizing s with
  | nil => rfl
  | cons part parts ih => rw [answers, List.filterMap_cons, List.filterMap_cons, hpart, ih]

/-- Of values that replace one another the last one counts. -/
theorem foldl_getD {α β : Type} (f : α → Option β) (xs : List α) (old : β) :
    xs.foldl (fun old x => (f x).getD old) old = (xs.filterMap f).getLast?.getD old := by
  induction xs generalizing old with
  | nil => rfl
  | cons x xs ih =>
      rw [List.foldl_cons, ih, List.filterMap_cons]
      cases f x with
      | none => rfl
      | some y =>
          rw [List.getLast?_cons]
          rfl

/-- Clauses replace one side of bounds one after another. -/
theorem foldl_side (side : DeclaredBounds → Float) (given : BoundClause → Option Float)
    (start : Float)
    (hstep : ∀ (old : Option DeclaredBounds) (line : Nat) (clause : BoundClause),
      side (Symbols.updatedBounds old clause.lower clause.upper line)
        = (given clause).getD ((old.map side).getD start))
    (name : String) (outcomes : List Outcome) :
    ((outcomes.foldl (Outcome.toBounds name) none).map side).getD start
      = ((outcomes.filterMap Outcome.clause?).filterMap
          fun clause => if name = clause.name then given clause else none).getLast?.getD start := by
  rw [List.filterMap_filterMap, ← foldl_getD]
  refine (List.foldl_hom (fun old : Option DeclaredBounds => (old.map side).getD start)
    fun old o => ?_).symm
  cases o with
  | bounds line clause =>
      show Option.getD (if name = clause.name then given clause else none) _ = _
      rw [Outcome.toBounds]
      split
      · exact (hstep old line clause).symm
      · rfl
  | _ => rfl

/-- The lower bound in the end is the one that was given last. -/
theorem lower_foldl_toBounds (name : String) (outcomes : List Outcome) :
    ((outcomes.foldl (Outcome.toBounds name) none).map (·.lower)).getD 0
      = ((outcomes.filterMap Outcome.clause?).filterMap (·.lower? name)).getLast?.getD 0 :=
  foldl_side (·.lower) (·.lower) 0 (fun old _ _ => by cases old <;> rfl) name outcomes

/-- The upper bound in the end is the one that was given last. -/
theorem upper_foldl_toBounds (name : String) (outcomes : List Outcome) :
    ((outcomes.foldl (Outcome.toBounds name) none).map (·.upper)).getD Binary64.infinity
      = ((outcomes.filterMap Outcome.clause?).filterMap (·.upper? name)).getLast?.getD
          Binary64.infinity :=
  foldl_side (·.upper) (·.upper) Binary64.infinity (fun old _ _ => by cases old <;> rfl) name
    outcomes

/-- Bounds are noted as soon as a clause is about the name. -/
theorem foldl_toBounds_eq_none_iff {name : String} {outcomes : List Outcome}
    {old : Option DeclaredBounds} :
    outcomes.foldl (Outcome.toBounds name) old = none
      ↔ old = none ∧ ∀ clause ∈ outcomes.filterMap Outcome.clause?, name ≠ clause.name := by
  induction outcomes generalizing old with
  | nil => simp
  | cons o outcomes ih =>
      rw [List.foldl_cons, ih]
      cases o with
      | bounds line clause =>
          have hcons : (Outcome.bounds line clause :: outcomes).filterMap Outcome.clause?
              = clause :: outcomes.filterMap Outcome.clause? := rfl
          rw [Outcome.toBounds, hcons, List.forall_mem_cons]
          split <;> rename_i hname <;> simp [hname]
      | _ => rfl

/-- What a text says of the bounds of a name in the end. -/
theorem boundsOf_ofText (registry : Registry) (text name : String) :
    (Draft.ofText registry text).symbols.boundsOf name
      = (answers (.start registry) (partsOf text)).1.foldl (Outcome.toBounds name) none := by
  rw [Draft.ofText_eq]
  exact boundsOf_answers (.start registry) (partsOf text) name

/-- Where no bounds have been noted, no clause gives a side. -/
theorem boundsOf_ofText_eq_none_iff {registry : Registry} {text name : String} :
    (Draft.ofText registry text).symbols.boundsOf name = none
      ↔ lastLower text name = none ∧ lastUpper text name = none := by
  rw [boundsOf_ofText, foldl_toBounds_eq_none_iff, filterMap_clause?_answers, lastLower,
    lastUpper, List.getLast?_eq_none_iff, List.filterMap_eq_nil_iff, List.getLast?_eq_none_iff,
    List.filterMap_eq_nil_iff]
  show none = none ∧ (∀ clause ∈ boundClauses text, _) ↔ _
  constructor
  · rintro ⟨_, hother⟩
    exact ⟨fun clause hclause => if_neg (hother clause hclause),
      fun clause hclause => if_neg (hother clause hclause)⟩
  · rintro ⟨hlower, hupper⟩
    refine ⟨rfl, fun clause hclause hname => ?_⟩
    have hlower := hlower clause hclause
    have hupper := hupper clause hclause
    rw [BoundClause.lower?, if_pos hname] at hlower
    rw [BoundClause.upper?, if_pos hname] at hupper
    -- A clause of the name has to give one of its sides.
    obtain ⟨part, _, hpart⟩ := List.mem_filterMap.mp hclause
    cases part with
    | bounds st =>
        rcases isSome_of_boundClause (eq_ok_of_clause? hpart) with h | h
        · rw [hlower] at h
          cases h
        · rw [hupper] at h
          cases h
    | _ => cases hpart

/-! ### Bounds in the end -/

/-- The upper bound of a variable that is not given one. -/
def impliedUpper (kind : Kind) : Float := if kind = .binary then 1 else Binary64.infinity

/-- Whether a lower bound is all that a text gives a binary variable. -/
def HasLoneLower (final : Registry) (text : String) (v : Variable) : Prop :=
  (final.attributes v).kind = .binary ∧ (lastLower text v.name).isSome = true
    ∧ lastUpper text v.name = none

theorem bounds_saidAttributes (s : Symbols) (name : String) :
    (s.saidAttributes name).lower = ((s.boundsOf name).map (·.lower)).getD 0
      ∧ (s.saidAttributes name).upper
        = ((s.boundsOf name).map (·.upper)).getD (impliedUpper (s.saidAttributes name).kind) := by
  unfold Symbols.saidAttributes Symbols.saidBounds
  cases s.boundsOf name <;> exact ⟨rfl, rfl⟩

/-- The bounds of a variable are those that have been noted, or implied
where nothing has been noted. -/
theorem noted_of_read (registry : Registry) (text : String) {v : Variable}
    (hv : v ∈ (read registry text).1.variableSet) :
    ((read registry text).2.attributes v).lower
        = (((Draft.ofText registry text).symbols.boundsOf v.name).map (·.lower)).getD 0
      ∧ ((read registry text).2.attributes v).upper
        = (((Draft.ofText registry text).symbols.boundsOf v.name).map (·.upper)).getD
            (impliedUpper ((read registry text).2.attributes v).kind) := by
  obtain ⟨hkind, hlower, hupper⟩ := values_of_read registry text hv
  rw [hlower, hupper, hkind]
  exact bounds_saidAttributes _ _

/-- The lower bound is the last one that is given, and zero if none is. -/
theorem lower_of_read (registry : Registry) (text : String) {v : Variable}
    (hv : v ∈ (read registry text).1.variableSet) :
    ((read registry text).2.attributes v).lower = (lastLower text v.name).getD 0 := by
  rw [(noted_of_read registry text hv).1, boundsOf_ofText, lower_foldl_toBounds,
    filterMap_clause?_answers]
  rfl

/-- The upper bound is the last one that is given. If none is, it is
infinity where a lower bound is given, and implied otherwise. -/
theorem upper_of_read (registry : Registry) (text : String) {v : Variable}
    (hv : v ∈ (read registry text).1.variableSet) :
    ((read registry text).2.attributes v).upper
      = (lastUpper text v.name).getD
          (if (lastLower text v.name).isSome = true then Binary64.infinity
            else impliedUpper ((read registry text).2.attributes v).kind) := by
  have hlast := upper_foldl_toBounds v.name (answers (.start registry) (partsOf text)).1
  rw [filterMap_clause?_answers, ← boundsOf_ofText] at hlast
  have hnone := @boundsOf_ofText_eq_none_iff registry text v.name
  rw [(noted_of_read registry text hv).2]
  change _ = (lastUpper text v.name).getD _ at hlast
  -- What is left to do is about the four values alone.
  generalize (Draft.ofText registry text).symbols.boundsOf v.name = noted at hlast hnone ⊢
  generalize impliedUpper _ = implied
  generalize lastLower text v.name = lower at hnone ⊢
  generalize lastUpper text v.name = upper at hlast hnone ⊢
  cases noted with
  | none =>
      obtain ⟨rfl, rfl⟩ := hnone.mp rfl
      rfl
  | some b =>
      cases upper with
      | some u => exact hlast
      | none =>
          cases lower with
          | some l => exact hlast
          | none =>
              -- Bounds have been noted, so a side was given.
              cases hnone.mpr ⟨rfl, rfl⟩

/-- Each side of the bounds of a variable is what the text gives it last.
A side that is not given is zero below, and above it is implied by the
kind, whatever the order of the statements and of the declarations.
Only a binary variable that is given a lower bound alone is not bounded
above. -/
theorem bounds_of_read (registry : Registry) (text : String) :
    (∀ (statement : Numbered) (clause : BoundClause), boundClause statement = .ok clause
        ↔ ∃ tokens, tokenize statement.text = .ok tokens ∧ IsBoundForm tokens clause)
      ∧ ∀ v ∈ (read registry text).1.variableSet,
        ((read registry text).2.attributes v).lower = (lastLower text v.name).getD 0
          ∧ (((read registry text).2.attributes v).upper
              = (lastUpper text v.name).getD
                  (impliedUpper ((read registry text).2.attributes v).kind)
            ↔ ¬ HasLoneLower (read registry text).2 text v)
          ∧ (HasLoneLower (read registry text).2 text v →
            ((read registry text).2.attributes v).upper = Binary64.infinity) := by
  have hone : (1 : Float) ≠ Binary64.infinity := by decide
  refine ⟨fun _ _ => boundClause_eq_ok_iff, fun v hv => ⟨lower_of_read registry text hv, ?_⟩⟩
  rw [upper_of_read registry text hv, HasLoneLower]
  generalize ((read registry text).2.attributes v).kind = kind
  generalize lastLower text v.name = lower
  generalize lastUpper text v.name = upper
  cases upper with
  | some u => simp
  | none =>
      cases lower with
      | none => simp
      | some l => by_cases hkind : kind = .binary <;> simp [impliedUpper, hkind, hone.symm]

/-- The sides of `x` are given by several statements, on both sides of
the relation and with signs. -/
def tightenedText : String := "MIN x + b\nBOUNDS x <= 5\n 3 >= x\n --1 <= x\n b <= 1\nBINARY b\n"

theorem tightenedText_bounds :
    ∃ v ∈ (read ∅ tightenedText).1.variableSet, v.name = "x"
      ∧ ((read ∅ tightenedText).2.attributes v).lower = 1
      ∧ ((read ∅ tightenedText).2.attributes v).upper = 3 := by
  have hx : ∃ v ∈ (read ∅ tightenedText).1.variableSet.toList, v.name = "x"
      ∧ ((read ∅ tightenedText).2.attributes v).kind = .real := by
    decide +kernel
  have hlower : lastLower tightenedText "x" = some 1 := by decide +kernel
  have hupper : lastUpper tightenedText "x" = some 3 := by decide +kernel
  obtain ⟨v, hv, hname, hkind⟩ := hx
  have hv := VariableSet.mem_toList_iff.mp hv
  obtain ⟨_, hbounds⟩ := bounds_of_read ∅ tightenedText
  obtain ⟨hl, hu, _⟩ := hbounds v hv
  refine ⟨v, hv, hname, ?_, ?_⟩
  · rw [hl, hname, hlower]
    rfl
  · have hlone : ¬ HasLoneLower (read ∅ tightenedText).2 tightenedText v := by
      rintro ⟨hbinary, _⟩
      rw [hkind] at hbinary
      cases hbinary
    rw [hu.mpr hlone, hname, hupper]
    rfl

/-- A binary variable that is given a lower bound alone. -/
def loneLowerText : String := "MIN\n b\nBOUNDS\n b >= 0\nBINARY\n b\nEND\n"

/-- The upper bound is infinity and not one, and for this reason the
variable is reported not to be valid. -/
theorem loneLower_unbounded :
    (∃ v ∈ (read ∅ loneLowerText).1.variableSet.toList,
      ((read ∅ loneLowerText).2.attributes v).kind = .binary
        ∧ lastUpper loneLowerText v.name = none
        ∧ ((read ∅ loneLowerText).2.attributes v).upper = Binary64.infinity
        ∧ ((read ∅ loneLowerText).2.attributes v).upper ≠ 1)
      ∧ (read ∅ loneLowerText).1.problems.map (·.line) = [6] := by
  decide +kernel

end LinearProgram.LpText
