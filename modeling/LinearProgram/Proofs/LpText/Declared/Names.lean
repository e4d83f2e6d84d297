import LinearProgram.Proofs.LpText.Accepted.Documents
import LinearProgram.Proofs.LpText.Declared.Conflicts

/-!
# `LinearProgram.Proofs.LpText.Declared.Names`: which names can be declared and used

A list of binary or general variables takes a word for a name if its
characters allow this. An expression or a bound takes it for a name if
it is one token and this token is a name. These two tests differ for the
words for infinity alone, in any case of letters: they can be declared,
but elsewhere they are numbers, so that no text can use the variable.

* `isName_iff`: a name is a name token or a word for infinity.
* `partsOf_headed`: the parts of a text of one line, which is a header
  and some words.
* `declarable_iff_usable`: the names that some text declares are those
  that pass the first test, and the names that some text uses in an
  expression, or gives bounds, are those that pass the second one. A
  word for infinity can only be declared (`infinity_isDeclared`).
-/

set_option autoImplicit false

namespace LinearProgram.LpText

open Text (spaced IsWord)

/-! ### Words for infinity -/

/-- A word of letters is a name. -/
theorem isName_of_isAlpha {w : List Char} (hne : w ≠ []) (h : ∀ c ∈ w, c.isAlpha = true) :
    isName w = true := by
  cases w with
  | nil => exact absurd rfl hne
  | cons c rest =>
      rw [isName, isNameStart, h c (List.mem_cons_self ..), Bool.true_or, Bool.true_and,
        List.all_eq_true]
      intro d hd
      rw [isNameChar, Char.isAlphanum, h d (List.mem_cons_of_mem _ hd), Bool.true_or, Bool.true_or]

/-- What is a letter in lower case was one before. -/
theorem isAlpha_of_toLower {c : Char} (h : c.toLower.isAlpha = true) : c.isAlpha = true := by
  by_cases hupper : c.isUpper = true
  · exact Bool.or_eq_true_iff.mpr (Or.inl hupper)
  · have hother : ¬ (c.val ≥ 'A'.val ∧ c.val ≤ 'Z'.val) :=
      of_decide_eq_false ((Bool.not_eq_true _).mp hupper)
    have hsame : c.toLower = c := dif_neg hother
    rwa [hsame] at h

theorem isName_of_isInfinityWord {w : List Char} (h : isInfinityWord w = true) :
    isName w = true := by
  rw [isInfinityWord, Bool.or_eq_true, beq_iff_eq, beq_iff_eq] at h
  have hletters : (folded w).all Char.isAlpha = true := by
    rcases h with h | h <;> rw [h] <;> rfl
  refine isName_of_isAlpha ?_ fun c hc => ?_
  · rintro rfl
    rcases h with h | h <;> cases h
  · exact isAlpha_of_toLower (List.all_eq_true.mp hletters _ (List.mem_map_of_mem hc))

/-! ### The two tests -/

/-- A name is one token. -/
theorem tokenize_name {name : String} (h : isName name.toList = true) :
    tokenize name.toList = .ok [nameToken name] := by
  have hjoined : joined [name.toList] = name.toList := List.append_nil _
  rw [← hjoined, tokenize_joined (spells_name h)]

/-- The words that are one token, which is the name itself. -/
theorem tokenize_eq_name_iff {name : String} :
    tokenize name.toList = .ok [.name name] ↔ IsPlainName name := by
  constructor
  · exact fun h => isPlainName_of_tokenize h name (List.mem_singleton_self _)
  · intro h
    rw [tokenize_name h.1, nameToken, if_neg (by rw [h.2]; exact Bool.false_ne_true)]

/-- A word is a name by its characters if it is read as this name, or as
infinity although it is one. -/
theorem isName_iff {name : String} :
    isName name.toList = true
      ↔ tokenize name.toList = .ok [.name name]
        ∨ isInfinityWord name.toList = true
          ∧ tokenize name.toList = .ok [.number Binary64.infinity] := by
  constructor
  · intro h
    cases hinfinity : isInfinityWord name.toList with
    | false => exact .inl (tokenize_eq_name_iff.mpr ⟨h, hinfinity⟩)
    | true =>
        refine .inr ⟨rfl, ?_⟩
        rw [tokenize_name h, nameToken, if_pos hinfinity]
  · rintro (h | ⟨h, _⟩)
    · exact (tokenize_eq_name_iff.mp h).1
    · exact isName_of_isInfinityWord h

/-! ### Texts of one line -/

/-- A text of one line, which is a keyword and words behind it. -/
def headedText (keyword : String) (ws : List (List Char)) : String :=
  String.ofList (Text.stacked [contentLine (keyword.toList :: ws)])

/-- No name begins with an operator. -/
theorem startsWithOperator_name {name : String} (h : isName name.toList = true)
    (ws : List (List Char)) : startsWithOperator (joined (name.toList :: ws)) = false := by
  obtain ⟨c, rest, hcons, hstart, _⟩ := isName_cons h
  rw [hcons]
  exact (isNameChar_plain (isNameStart_plain hstart).1).2.1

/-- Whether a word is the header of a section. -/
structure IsHeading (keyword : String) (opened : Section) : Prop where
  word : IsPlainWord keyword.toList
  alone : secondWord? (String.ofList (folded keyword.toList)) = none
  opens : sectionOfWord? (String.ofList (folded keyword.toList)) = some opened

/-- What stands behind a header is the only statement of its section. -/
theorem partsOf_headed {keyword : String} {opened : Section} {ws : List (List Char)}
    (h : IsHeading keyword opened) (hws : IsStatement ws)
    (hstart : startsWithOperator (joined ws) = false) :
    partsOf (headedText keyword ws)
      = .header opened :: (Item.statement opened ⟨1, joined ws⟩).parts := by
  have hline : IsStatement (keyword.toList :: ws) :=
    ⟨List.cons_ne_nil _ _, List.forall_mem_cons.mpr ⟨h.word, hws.2⟩⟩
  have hwords : ∀ w ∈ ws, IsWord w := fun w hw => (hws.2 w hw).1
  have hlines : Text.lines (headedText keyword ws).toList
      = [contentLine (keyword.toList :: ws)] := by
    rw [headedText, String.toList_ofList]
    refine Text.lines_stacked fun l hl => ?_
    rw [List.mem_singleton.mp hl]
    exact isLine_contentLine fun w hw => (hline.2 w hw).1
  have hcontents : contents (headedText keyword ws).toList
      = [⟨1, joined (keyword.toList :: ws)⟩] := by
    rw [contents, hlines, numberedFrom_eq 1 fun l hl => ?_, List.map_singleton,
      stripped_contentLine hline]
    · rfl
    · rw [List.mem_singleton.mp hl, stripped_contentLine hline]
      exact joined_ne_nil hline
  have hheader : header? (joined (keyword.toList :: ws)) = some (opened, joined ws) := by
    rw [header?, firstWord_joined h.word.1 hwords]
    simp only [h.alone, h.opens, hstart, Bool.false_eq_true, if_false]
  have hpieces : piecesOf ⟨1, joined (keyword.toList :: ws)⟩
      = [.header opened, .content ⟨1, joined ws⟩] := by
    rw [piecesOf, hheader]
    cases hjoined : joined ws with
    | nil => exact absurd hjoined (joined_ne_nil hws)
    | cons c rest => rfl
  rw [← flatMap_items_eq, items, hcontents, List.flatMap_singleton, hpieces]
  show [.header opened] ++ ((Item.statement opened ⟨1, joined ws⟩).parts ++ []) = _
  rw [List.append_nil]
  rfl

/-! ### Declarations and uses -/

/-- Whether a variable of this name stands in what has been read of an
expression. -/
def Outcome.Uses (name : String) : Outcome → Prop
  | .term _ t => ∃ v ∈ t.occurring, v.name = name
  | .constraint c => ∃ v, c.Occurs v ∧ v.name = name
  | _ => False

/-- Whether some text declares the name to be of a kind. -/
def IsDeclarable (registry : Registry) (kind : Kind) (name : String) : Prop :=
  ∃ text line, .declaration name kind line ∈ outcomesOf registry text

/-- Whether the objective or a constraint of some text uses the name. -/
def IsUsable (registry : Registry) (name : String) : Prop :=
  ∃ text, ∃ o ∈ outcomesOf registry text, o.Uses name

/-- Whether some text gives bounds to the name. -/
def IsBoundable (registry : Registry) (name : String) : Prop :=
  ∃ text line clause, .bounds line clause ∈ outcomesOf registry text ∧ clause.name = name

/-- An outcome is the one that a part has in some state. -/
theorem exists_answer_of_mem {s : Symbols} {parts : List Part} {o : Outcome}
    (h : o ∈ (answers s parts).1) : ∃ s' part, o = (answer s' part).1 := by
  induction parts generalizing s with
  | nil => cases h
  | cons part parts ih =>
      rw [answers] at h
      rcases List.mem_cons.mp h with rfl | h
      · exact ⟨s, part, rfl⟩
      · exact ih h

theorem isName_of_declaration {s : Symbols} {part : Part} {name : String} {kind : Kind}
    {line : Nat} (h : .declaration name kind line = (answer s part).1) :
    isName name.toList = true := by
  have hyields := answer_yields s part
  rw [← h] at hyields
  cases part with
  | word kind' line' w =>
      obtain ⟨rfl, _, _⟩ := hyields
      rw [String.toList_ofList]
      by_contra hname
      rw [answer, answerWord, if_neg hname] at h
      cases h
  | _ => exact hyields.elim

/-- A variable of an expression comes from a token. -/
theorem isPlainName_of_uses {s : Symbols} {part : Part} {name : String}
    (h : (answer s part).1.Uses name) : IsPlainName name := by
  have hyields := answer_yields s part
  cases part with
  | objective sense st =>
      rw [answer] at h
      rcases hread : Draft.objectiveTerm st.text s with ⟨_ | t, s'⟩
      · rw [hread] at h
        exact h.elim
      · rw [hread] at h
        obtain ⟨v, hv, rfl⟩ := h
        exact ((isAcceptedTerm_objectiveTerm hread).known v hv).name
  | constraint st =>
      rw [answer] at h
      rcases hread : constraintStatement st s with ⟨_ | c, s'⟩
      · rw [hread] at h
        exact h.elim
      · rw [hread] at h
        obtain ⟨v, hv, rfl⟩ := h
        exact ((isAcceptedConstraint_statement hread).knows hv).name
  | _ =>
      -- The outcome of any other part has no expression.
      cases hanswer : (answer s _).1 <;> rw [hanswer] at h hyields
      all_goals first | exact h.elim | exact hyields.elim

theorem isPlainName_of_bounds {s : Symbols} {part : Part} {line : Nat} {clause : BoundClause}
    (h : .bounds line clause = (answer s part).1) : IsPlainName clause.name := by
  have hyields := answer_yields s part
  rw [← h] at hyields
  cases part with
  | bounds st =>
      rw [answer] at h
      cases hclause : boundClause st with
      | error e =>
          rw [hclause] at h
          cases h
      | ok clause' =>
          rw [hclause] at h
          cases h
          rw [boundClause] at hclause
          cases htokens : tokenize st.text with
          | error e =>
              rw [htokens] at hclause
              cases hclause
          | ok tokens =>
              rw [htokens] at hclause
              exact isPlainName_of_tokenize htokens _ (name_mem_of_boundOf hclause)
  | _ => exact hyields.elim

/-! ### Texts that declare and use a name -/

variable {registry : Registry} {name : String}

theorem isStatement_of_isName {ws : List (List Char)} (hne : ws ≠ [])
    (h : ∀ w ∈ ws, isName w = true) : IsStatement ws :=
  ⟨hne, fun w hw => isPlainWord_of_isName (h w hw)⟩

theorem isStatement_name (h : isName name.toList = true) : IsStatement [name.toList] :=
  isStatement_of_isName (List.cons_ne_nil _ _) (List.forall_mem_singleton.mpr h)

/-- A list of one name declares it, whatever its letters are. -/
theorem declaration_mem_of_isName (h : isName name.toList = true) {keyword : String}
    {opened : Section} {kind : Kind} (hkeyword : IsHeading keyword opened)
    (hopened : ∀ st, (Item.statement opened st).parts = wordParts kind st) :
    .declaration name kind 1 ∈ outcomesOf registry (headedText keyword [name.toList]) := by
  have hwords : Text.words (joined [name.toList]) = [name.toList] :=
    Text.words_append (isWord_of_isName h) rfl
  rw [outcomesOf, partsOf_headed hkeyword (isStatement_name h)
    (startsWithOperator_name h []), hopened, wordParts, hwords]
  have hanswer : (answerWord kind 1 name.toList (.start registry)).1
      = .declaration name kind 1 := by
    rw [answerWord, if_pos h, String.ofList_toList]
    dsimp only
    rw [Symbols.kindOf_mention]
    rfl
  exact List.mem_cons_of_mem _ (List.mem_cons.mpr (.inl hanswer.symm))

theorem isHeading_binary : IsHeading "BINARY" .binary := ⟨by decide, by decide, by decide⟩

theorem isHeading_general : IsHeading "GENERAL" .general := ⟨by decide, by decide, by decide⟩

theorem isDeclarable_iff {kind : Kind} (hkind : kind ∈ [Kind.binary, .integer]) :
    IsDeclarable registry kind name ↔ isName name.toList = true := by
  constructor
  · rintro ⟨text, line, hmem⟩
    obtain ⟨s, part, heq⟩ := exists_answer_of_mem hmem
    exact isName_of_declaration heq
  · intro h
    rcases List.mem_cons.mp hkind with rfl | hkind
    · exact ⟨_, 1, declaration_mem_of_isName h isHeading_binary fun _ => rfl⟩
    · rw [List.mem_singleton.mp hkind]
      exact ⟨_, 1, declaration_mem_of_isName h isHeading_general fun _ => rfl⟩

/-- A name alone is read as a term with its variable. -/
theorem expression_name (h : IsPlainName name) (s : Symbols) :
    ∃ (t : Term Float) (s' : Symbols), expression [.name name] s = (.ok t, s')
      ∧ ∃ v ∈ t.occurring, v.name = name := by
  have hone : ((1 : Float) == 1) = true := by decide
  have hnumber : (1 : Float).isNaN = false := by decide
  have hnonzero : ((1 : Float) == 0) = false := by decide
  have hentries : ∀ p ∈ [((⟨0, name⟩, 1) : Variable × Float)], IsReadable p := by
    intro p hp
    rw [List.mem_singleton.mp hp]
    exact ⟨h, hnumber, hnonzero⟩
  obtain ⟨t, s', heq, ht, _⟩ := @expression_entryTokens _ 0 (List.pairwise_singleton _ _) hentries
    (fun hnil => absurd hnil (List.cons_ne_nil _ _)) s
  have htokens : entryTokens [((⟨0, name⟩, 1) : Variable × Float)] 0 = [.name name] := by
    have hpositive : ¬ (1 : Float) < 0 := by decide
    have hzero : ¬ (0 : Float) < 0 := by decide
    rw [entryTokens, firstTokens, if_neg hpositive, factorTokens, if_pos hone, List.flatMap_nil,
      List.nil_append, constantTokens, if_neg hzero, if_neg hzero]
    rfl
  rw [htokens] at heq
  obtain ⟨w, hw, hname⟩ := ht.known _ (List.mem_singleton_self _)
  refine ⟨t, s', heq, w, ?_, hname⟩
  refine Term.mem_occurring.mpr ⟨1, (ht.coefficient w 1).mpr ⟨hw, ?_⟩⟩
  rw [hname]
  exact List.mem_singleton_self _

theorem isUsable_iff : IsUsable registry name ↔ IsPlainName name := by
  constructor
  · rintro ⟨text, o, ho, huses⟩
    obtain ⟨s, part, rfl⟩ := exists_answer_of_mem ho
    exact isPlainName_of_uses huses
  · intro h
    have hparts : partsOf (headedText "MIN" [name.toList])
        = [.header (.objective .minimize), .objective .minimize ⟨1, joined [name.toList]⟩] :=
      partsOf_headed ⟨by decide, by decide, by decide⟩ (isStatement_name h.1)
        (startsWithOperator_name h.1 [])
    obtain ⟨t, s', heq, huses⟩ := expression_name h (.start registry)
    have hread : Draft.objectiveTerm (joined [name.toList]) (.start registry) = (.ok t, s') := by
      rw [Draft.objectiveTerm, Action.bind_apply, tokenize_joined (spells_plainName h)]
      exact heq
    refine ⟨headedText "MIN" [name.toList], .term .minimize t, ?_, huses⟩
    rw [outcomesOf, hparts, answers, answers, answer, answer, hread]
    exact List.mem_cons_of_mem _ (List.mem_cons_self ..)

theorem isBoundable_iff : IsBoundable registry name ↔ IsPlainName name := by
  constructor
  · rintro ⟨text, line, clause, hmem, rfl⟩
    obtain ⟨s, part, heq⟩ := exists_answer_of_mem hmem
    exact isPlainName_of_bounds heq
  · intro h
    have hfree : IsPlainName "FREE" := ⟨by decide, by decide⟩
    have hstatement : IsStatement [name.toList, "FREE".toList] :=
      isStatement_of_isName (List.cons_ne_nil _ _)
        (List.forall_mem_cons.mpr ⟨h.1, List.forall_mem_singleton.mpr hfree.1⟩)
    have hparts : partsOf (headedText "BOUNDS" [name.toList, "FREE".toList])
        = [.header .bounds, .bounds ⟨1, joined [name.toList, "FREE".toList]⟩] :=
      partsOf_headed ⟨by decide, by decide, by decide⟩ hstatement (startsWithOperator_name h.1 _)
    have hclause : boundClause ⟨1, joined [name.toList, "FREE".toList]⟩
        = .ok ⟨name, some (-Binary64.infinity), some Binary64.infinity⟩ := by
      rw [boundClause]
      dsimp only
      rw [tokenize_joined ((spells_plainName h).cons (spells_plainName hfree))]
      rfl
    refine ⟨headedText "BOUNDS" [name.toList, "FREE".toList], 1,
      ⟨name, some (-Binary64.infinity), some Binary64.infinity⟩, ?_, rfl⟩
    rw [outcomesOf, hparts, answers, answers, answer, answer, hclause]
    exact List.mem_cons_of_mem _ (List.mem_cons_self ..)

/-- The lists of variables accept the words whose characters allow it,
and some text uses exactly those in an expression, and gives bounds
exactly to those, that are one token and a name. The two differ by the
words for infinity, which are accepted in lists and are numbers
elsewhere. -/
theorem declarable_iff_usable (registry : Registry) (name : String) :
    (∀ kind ∈ [Kind.binary, .integer],
        IsDeclarable registry kind name ↔ isName name.toList = true)
      ∧ (IsUsable registry name ↔ tokenize name.toList = .ok [.name name])
      ∧ (IsBoundable registry name ↔ tokenize name.toList = .ok [.name name])
      ∧ (tokenize name.toList = .ok [.name name]
        ↔ isName name.toList = true ∧ isInfinityWord name.toList = false)
      ∧ (isName name.toList = true
        ↔ tokenize name.toList = .ok [.name name]
          ∨ isInfinityWord name.toList = true
            ∧ tokenize name.toList = .ok [.number Binary64.infinity]) := by
  refine ⟨fun kind hkind => isDeclarable_iff hkind, ?_, ?_, tokenize_eq_name_iff, isName_iff⟩
  · rw [tokenize_eq_name_iff, isUsable_iff]
  · rw [tokenize_eq_name_iff, isBoundable_iff]

/-- The name `inf` is accepted as the name of a binary variable, and is
a number wherever the variable is to be used. -/
theorem infinity_isDeclared :
    isName "inf".toList = true ∧ tokenize "inf".toList ≠ .ok [.name "inf"]
      ∧ .declaration "inf" .binary 1 ∈ outcomesOf ∅ (headedText "BINARY" ["inf".toList])
      ∧ ¬ IsUsable ∅ "inf" ∧ ¬ IsBoundable ∅ "inf" := by
  have hname : isName "inf".toList = true := by decide
  have hnumber : ¬ IsPlainName "inf" := fun h => absurd h.2 (by decide)
  exact ⟨hname, fun h => hnumber (tokenize_eq_name_iff.mp h),
    declaration_mem_of_isName hname isHeading_binary fun _ => rfl,
    fun h => hnumber (isUsable_iff.mp h), fun h => hnumber (isBoundable_iff.mp h)⟩

end LinearProgram.LpText
