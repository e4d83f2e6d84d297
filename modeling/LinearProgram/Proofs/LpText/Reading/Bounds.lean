import LinearProgram.Proofs.LpText.Reading.Agreement
import LinearProgram.Proofs.LpText.Reading.Expressions
import LinearProgram.Proofs.LpText.Reading.Headers

/-!
# `LinearProgram.Proofs.LpText.Reading.Bounds`: reading bounds and kinds back

The bounds of a variable are written in one of four forms, and each of
them is read as the clause that says the same. A side that is zero below
or infinity above is not written; it is what the reader assumes.

* `boundStatement_words`: a line of bounds is noted for its variable and
  says what is so.
* `declareWords_word`: so does a line of a kind.
-/

set_option autoImplicit false

namespace LinearProgram.LpText

open Decimal (plain)

/-! ### Clauses -/

theorem signedNumber_numberTokens (x : Float) : signedNumber 1 (numberTokens x) = .ok x := by
  unfold numberTokens
  split
  · show Except.ok (-1 * -x) = _
    rw [Binary64.mul_comm, Binary64.mul_neg_one, Binary64.neg_neg]
  · show Except.ok (1 * x) = _
    rw [Binary64.one_mul]

/-- A number is no name standing alone. -/
theorem numberTokens_cases (x : Float) :
    numberTokens x = [.minus, .number (-x)] ∨ numberTokens x = [.number x] := by
  unfold numberTokens
  split
  · exact .inl rfl
  · exact .inr rfl

theorem boundOf_free (text name : String) :
    boundOf text [.name name, .name "FREE"]
      = .ok ⟨name, some (-Binary64.infinity), some Binary64.infinity⟩ := rfl

theorem boundOf_upper (text name : String) (upper : Float) :
    boundOf text (.name name :: .relation .atMost :: numberTokens upper)
      = .ok ⟨name, none, some upper⟩ := by
  have hnumber := signedNumber_numberTokens upper
  rcases numberTokens_cases upper with htokens | htokens
  · rw [htokens] at hnumber ⊢
    show (signedNumber 1 [.minus, .number (-upper)]).map (clauseOf name .atMost) = _
    rw [hnumber]
    rfl
  · rw [htokens] at hnumber ⊢
    show (signedNumber 1 [.number upper]).map (clauseOf name .atMost) = _
    rw [hnumber]
    rfl

theorem boundOf_lower (text name : String) (lower : Float) :
    boundOf text (numberTokens lower ++ [.relation .atMost, .name name])
      = .ok ⟨name, some lower, none⟩ := by
  have hnumber := signedNumber_numberTokens lower
  rcases numberTokens_cases lower with htokens | htokens
  · rw [htokens] at hnumber ⊢
    show (signedNumber 1 [.minus, .number (-lower)]).map (clauseOf name .atLeast) = _
    rw [hnumber]
    rfl
  · rw [htokens] at hnumber ⊢
    show (signedNumber 1 [.number lower]).map (clauseOf name .atLeast) = _
    rw [hnumber]
    rfl

theorem boundOf_both (text name : String) (lower upper : Float) :
    boundOf text (numberTokens lower
        ++ .relation .atMost :: .name name :: .relation .atMost :: numberTokens upper)
      = .ok ⟨name, some lower, some upper⟩ := by
  have hlower := signedNumber_numberTokens lower
  have hupper := signedNumber_numberTokens upper
  have hsides : sides (numberTokens lower
      ++ .relation .atMost :: .name name :: .relation .atMost :: numberTokens upper)
      = (numberTokens lower, [(.atMost, [.name name]), (.atMost, numberTokens upper)]) := by
    rcases numberTokens_cases lower with hl | hl <;> rcases numberTokens_cases upper with hu | hu <;>
      rw [hl, hu] <;> rfl
  have hfree : freeName? (numberTokens lower
      ++ .relation .atMost :: .name name :: .relation .atMost :: numberTokens upper) = none := by
    rcases numberTokens_cases lower with hl | hl <;> rw [hl] <;> rfl
  rw [boundOf, hfree, hsides]
  simp only [hlower, hupper]
  rfl

/-! ### Statements -/

/-- Whether the words of bounds can be read: the name is a name, and the
sides are numbers. -/
structure HasReadableBounds (name : String) (a : Attributes) : Prop where
  name : IsPlainName name
  lower : a.lower.isNaN = false
  upper : a.upper.isNaN = false

theorem beq_negInfinity_iff {x : Float} :
    (x == -Binary64.infinity) = true ↔ x = -Binary64.infinity := by
  have hneg : -Binary64.infinity = Binary64.ofCode true Binary64.infinityCode := by decide
  rw [hneg]
  exact Binary64.beq_infinity_iff true

theorem writtenLower_eq {x : Float} (h : (x == 0) = false) : writtenLower x = x := by
  rw [writtenLower, if_neg (by rw [h]; exact Bool.false_ne_true)]

/-- The words of bounds are a clause of the variable, and the sides that
the clause does not give are zero and infinity. -/
theorem boundOf_words {name : String} {a : Attributes} (h : HasReadableBounds name a)
    {ws : List (List Char)} (hws : boundsWords? name a.lower a.upper = some ws) (text : String) :
    ∃ tokens lower upper, tokenize (joined ws) = .ok tokens
      ∧ boundOf text tokens = .ok ⟨name, lower, upper⟩
      ∧ lower.getD 0 = writtenLower a.lower ∧ upper.getD Binary64.infinity = a.upper := by
  have hname := spells_plainName h.name
  have hlower := spells_plain h.lower
  have hupper := spells_plain h.upper
  have hatMost := spells_relation .atMost
  have htokens : ∀ {vs : List (List Char)} {ts : List (Token Float)}, Spells vs ts →
      tokenize (joined vs) = .ok ts := tokenize_joined
  unfold boundsWords? at hws
  split at hws
  · cases hws
  rename_i hdefault
  split at hws
  · rename_i hfree
    rw [Bool.and_eq_true] at hfree
    cases hws
    have hword : Spells ["FREE".toList] [.name "FREE"] :=
      spells_plainName ⟨by decide, by decide⟩
    refine ⟨_, _, _, htokens (hname.cons hword), boundOf_free text name, ?_, ?_⟩
    · rw [beq_negInfinity_iff.mp hfree.1]
      decide
    · exact ((Binary64.beq_infinity_iff false).mp hfree.2).symm
  split at hws
  · rename_i hzero
    cases hws
    refine ⟨_, _, _, htokens (hname.cons (hatMost.cons hupper)), boundOf_upper text name a.upper,
      ?_, rfl⟩
    rw [writtenLower, if_pos hzero]
    rfl
  rename_i hzero
  have hwritten := writtenLower_eq (Bool.not_eq_true _ ▸ hzero)
  split at hws
  · rename_i hinfinity
    cases hws
    refine ⟨_, _, _, htokens (hlower.cons (hatMost.cons hname)), boundOf_lower text name a.lower,
      hwritten.symm, ?_⟩
    exact ((Binary64.beq_infinity_iff false).mp hinfinity).symm
  · cases hws
    exact ⟨_, _, _, htokens (hlower.cons (hatMost.cons (hname.cons (hatMost.cons hupper)))),
      boundOf_both text name a.lower a.upper, hwritten.symm, rfl⟩

/-- A line of bounds is noted for its variable, and says what is so. -/
theorem boundStatement_words {registry : Registry} {vars : VariableSet} {v : Variable}
    (hv : v ∈ vars) (h : HasReadableBounds v.name (registry.attributes v))
    {ws : List (List Char)}
    (hws : boundsWords? v.name (registry.attributes v).lower (registry.attributes v).upper = some ws)
    (line : Nat) {s : Symbols} (hagrees : s.AgreesWith registry vars) :
    ∃ s', boundStatement ⟨line, joined ws⟩ s = (.ok (), s') ∧ s'.AgreesWith registry vars
      ∧ ∃ e, s'.entries.get? v.name = some e ∧ e.bounds.isSome = true := by
  obtain ⟨tokens, lower, upper, htokens, hclause, hlower, hupper⟩ :=
    boundOf_words h hws (String.ofList (joined ws))
  refine ⟨s.declareBounds v.name lower upper line, ?_,
    hagrees.declareBounds hv hlower hupper line, ?_⟩
  · refine (action_bind_ok (by rw [htokens]; rfl)).trans ?_
    refine (action_bind_ok (by rw [hclause]; rfl)).trans ?_
    rfl
  · rw [Symbols.declareBounds, Symbols.get?_note, if_pos rfl, Symbols.get?_mention, if_pos rfl]
    exact ⟨_, rfl, rfl⟩

/-! ### Kinds -/

/-- A line of one name declares its kind. -/
theorem declareWords_word {registry : Registry} {vars : VariableSet} {v : Variable}
    (hv : v ∈ vars) (hname : isName v.name.toList = true) (line : Nat) {d : Draft}
    (hagrees : d.symbols.AgreesWith registry vars) :
    ∃ s', d.declareWords (registry.attributes v).kind ⟨line, joined [v.name.toList]⟩
        = { d with symbols := s' }
      ∧ s'.AgreesWith registry vars ∧ d.symbols.Grows s'
      ∧ ∃ e, s'.entries.get? v.name = some e ∧ e.kind.isSome = true := by
  have hwords : Text.words (joined [v.name.toList]) = [v.name.toList] := by
    refine Eq.trans ?_ (@Text.words_spaced [v.name.toList] fun w hw => ?_)
    · show _ = Text.words (' ' :: (v.name.toList ++ []))
      rw [Text.words, if_pos Text.isBlank_space]
      rfl
    · rw [List.mem_singleton.mp hw]
      exact isWord_of_isName hname
  have hmention := hagrees.mention hv
  have hstep : d.declareWords (registry.attributes v).kind ⟨line, joined [v.name.toList]⟩
      = { d with
          symbols := (d.symbols.mention v.name).2.declareKind v.name
            (registry.attributes v).kind line } := by
    rw [Draft.declareWords, hwords]
    show Draft.declareWord _ line d v.name.toList = _
    rw [Draft.declareWord, String.ofList_toList, if_pos hname]
    cases hget : ((d.symbols.mention v.name).2.entries.get? v.name).bind (·.kind) with
    | none => simp only [hget]
    | some declared =>
        -- A kind that was declared before is the same one.
        obtain ⟨e, he, hkind⟩ := Option.bind_eq_some_iff.mp hget
        obtain ⟨w, hw, hwname, hsuits⟩ := hmention v.name e he
        have hsame := hsuits.kind declared.1 declared.2 hkind
        rw [VariableSet.eq_of_name_eq hw hv hwname] at hsame
        simp only [hget, hsame, if_true]
  have hgrows : (d.symbols.mention v.name).2.Grows
      ((d.symbols.mention v.name).2.declareKind v.name (registry.attributes v).kind line) := by
    refine Symbols.grows_declareKind line fun e old he hkind => ?_
    obtain ⟨w, hw, hwname, hsuits⟩ := hmention v.name e he
    rw [← VariableSet.eq_of_name_eq hw hv hwname]
    exact hsuits.kind .binary old hkind
  refine ⟨_, hstep, hmention.declareKind hv line, (d.symbols.grows_mention _).trans hgrows, ?_⟩
  rw [Symbols.declareKind, Symbols.get?_note, if_pos rfl, Symbols.get?_mention, if_pos rfl]
  exact ⟨_, rfl, rfl⟩

end LinearProgram.LpText
