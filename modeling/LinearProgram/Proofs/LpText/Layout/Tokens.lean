import Mathlib.Data.List.Basic
import LinearProgram.Proofs.LpText.Reading.Tokens

/-!
# `LinearProgram.Proofs.LpText.Layout.Tokens`: tokens and the ends of a text

Texts that are joined by a space have the tokens of both, because no
token goes on behind a blank. And what decides whether one content
continues another, an operator at the end or a relation at the
beginning, can be told from the tokens alone.

* `tokenAt_append` and `tokenize_joined` are about what stands behind a
  blank.
* `tokenAt_cases` says what a token takes of a text;
  `startsWithRelation_of_tokenize` and `endsWithOperator_of_tokenize`
  what this means for the ends of the whole text.
-/

set_option autoImplicit false

namespace LinearProgram

open Text (isBlank)

/-! ### The ends of a trimmed text -/

namespace Text

theorem isBlank_head_trim {cs rest : List Char} {c : Char} (h : trim cs = c :: rest) :
    isBlank c = false := by
  have hprefix : trim cs <+: trimLeft cs := by
    rw [trim, trimRight, ← List.reverse_reverse (trimLeft cs)]
    exact List.reverse_prefix.mpr (by rw [List.reverse_reverse]; exact List.dropWhile_suffix _)
  obtain ⟨rest', hrest⟩ := hprefix
  rw [h, List.cons_append, trimLeft] at hrest
  have hhead := List.head_dropWhile_not isBlank (l := cs)
    (by rw [← hrest]; exact List.cons_ne_nil _ _)
  simpa only [← hrest, List.head_cons] using hhead

theorem isBlank_last_trim {cs front : List Char} {c : Char} (h : trim cs = front ++ [c]) :
    isBlank c = false := by
  have hreverse : (trimLeft cs).reverse.dropWhile isBlank = c :: front.reverse := by
    have := congrArg List.reverse h
    rwa [trim, trimRight, List.reverse_reverse, List.reverse_append, List.reverse_singleton,
      List.singleton_append] at this
  have hhead := List.head_dropWhile_not isBlank (l := (trimLeft cs).reverse)
    (by rw [hreverse]; exact List.cons_ne_nil _ _)
  simpa only [hreverse, List.head_cons] using hhead

end Text

namespace LpText

/-! ### What stands behind a blank -/

theorem Ends.ne_of_isBlank_eq_false {b d : Char} {after : List Char} (h : Ends (b :: after))
    (hd : isBlank d = false) : b ≠ d := by
  rintro rfl
  rw [show isBlank b = true from h] at hd
  cases hd

theorem takeWhile_append_ends {p : Char → Bool} (hp : ∀ c, isBlank c = true → p c = false)
    (cs : List Char) {after : List Char} (h : Ends after) :
    (cs ++ after).takeWhile p = cs.takeWhile p
      ∧ (cs ++ after).dropWhile p = cs.dropWhile p ++ after := by
  induction cs with
  | nil => exact ⟨takeWhile_ends hp (fun c hc => absurd hc List.not_mem_nil) h,
      dropWhile_ends hp (fun c hc => absurd hc List.not_mem_nil) h⟩
  | cons c cs ih =>
      rw [List.cons_append, List.takeWhile_cons, List.takeWhile_cons, List.dropWhile_cons,
        List.dropWhile_cons, ih.1, ih.2]
      split
      · exact ⟨rfl, rfl⟩
      · exact ⟨rfl, rfl⟩

theorem isDigit_of_isBlank (c : Char) (h : isBlank c = true) : c.isDigit = false := by
  have hnumeral := isNumeral_of_isBlank c h
  rw [isNumeral, Bool.or_eq_false_iff] at hnumeral
  exact hnumeral.1

theorem takeSign_append (cs : List Char) {after : List Char} (h : Ends after) :
    takeSign (cs ++ after) = ((takeSign cs).1, (takeSign cs).2 ++ after) := by
  cases cs with
  | nil =>
      cases after with
      | nil => rfl
      | cons b after =>
          have hplus := h.ne_of_isBlank_eq_false (d := '+') (by decide)
          have hminus := h.ne_of_isBlank_eq_false (d := '-') (by decide)
          unfold takeSign
          split <;> simp_all
  | cons c cs =>
      rw [List.cons_append]
      unfold takeSign
      split <;> simp_all

theorem takeSign_eq (cs : List Char) : (takeSign cs).1 ++ (takeSign cs).2 = cs := by
  unfold takeSign
  split <;> rfl

theorem takeExponent_eq (cs : List Char) : (takeExponent cs).1 ++ (takeExponent cs).2 = cs := by
  cases cs with
  | nil => rfl
  | cons e rest =>
      rw [takeExponent]
      split
      · show e :: ((takeSign rest).1 ++ _) ++ _ = _
        rw [List.cons_append, List.append_assoc, List.takeWhile_append_dropWhile, takeSign_eq]
      · rfl

theorem takeExponent_append (cs : List Char) {after : List Char} (h : Ends after) :
    takeExponent (cs ++ after) = ((takeExponent cs).1, (takeExponent cs).2 ++ after) := by
  cases cs with
  | nil => exact takeExponent_ends h
  | cons e rest =>
      have hdigit : startsWithDigit ((takeSign rest).2 ++ after)
          = startsWithDigit (takeSign rest).2 := by
        cases (takeSign rest).2 with
        | nil =>
            cases after with
            | nil => rfl
            | cons b after => exact isDigit_of_isBlank b h
        | cons d ds => rfl
      have hdigits := takeWhile_append_ends isDigit_of_isBlank (takeSign rest).2 h
      rw [List.cons_append, takeExponent, takeExponent, takeSign_append rest h]
      simp only [hdigit, hdigits]
      split
      · rfl
      · rfl

/-- The token at the beginning of a text is the same if a blank follows
the text. -/
theorem tokenAt_append (c : Char) (rest : List Char) {after : List Char} (h : Ends after) :
    tokenAt c (rest ++ after) = (tokenAt c rest).map fun p => (p.1, p.2 ++ after) := by
  by_cases hnumeral : isNumeral c = true
  · have hnumerals := takeWhile_append_ends isNumeral_of_isBlank rest h
    rw [tokenAt_numeral hnumeral, tokenAt_numeral hnumeral, hnumerals.1, hnumerals.2,
      takeExponent_append _ h]
    cases Decimal.read (c :: rest.takeWhile isNumeral
      ++ (takeExponent (rest.dropWhile isNumeral)).1) <;> rfl
  by_cases hname : isNameStart c = true
  · have hnames := takeWhile_append_ends isNameChar_of_isBlank rest h
    rw [tokenAt_name hname, tokenAt_name hname, hnames.1, hnames.2]
    rfl
  -- An operator may go on, but not with a blank.
  cases rest with
  | nil =>
      cases after with
      | nil =>
          rw [List.append_nil]
          cases tokenAt c [] <;> simp [Except.map]
      | cons b after =>
          have harrow := h.ne_of_isBlank_eq_false (d := '>') (by decide)
          have hequal := h.ne_of_isBlank_eq_false (d := '=') (by decide)
          have hless := h.ne_of_isBlank_eq_false (d := '<') (by decide)
          unfold tokenAt
          split <;> simp_all [Except.map]
  | cons d rest =>
      rw [List.cons_append]
      unfold tokenAt
      split <;> simp_all [Except.map]

/-- A text behind another one and a space is taken apart by itself. -/
theorem tokenize_append (p q : List Char) :
    tokenize (p ++ ' ' :: q) = match tokenize p with
      | .ok ts => (tokenize q).map (ts ++ ·)
      | .error e => .error e := by
  induction p using tokenize.induct with
  | case1 =>
      rw [List.nil_append, tokenize_blank, tokenize]
      cases tokenize q <;> rfl
  | case2 c rest hblank ih =>
      rw [List.cons_append, tokenize, if_pos hblank, ih, tokenize, if_pos hblank]
  | case3 c rest hblank t after htoken hlength ih =>
      have hc : isBlank c = false := Bool.eq_false_iff.mpr hblank
      have hlonger := @tokenAt_append c rest (' ' :: q) Text.isBlank_space
      rw [htoken] at hlonger
      rw [List.cons_append, tokenize_token hc hlonger, ih, tokenize_token hc htoken]
      cases tokenize after with
      | error e => rfl
      | ok ts => cases tokenize q <;> rfl
  | case4 c rest hblank e herror =>
      have hlonger := @tokenAt_append c rest (' ' :: q) Text.isBlank_space
      rw [herror] at hlonger
      have hfails : ∀ {cs}, tokenAt c cs = .error e → tokenize (c :: cs) = .error e := by
        intro cs hcs
        rw [tokenize, if_neg hblank]
        split <;> simp_all
      rw [List.cons_append, hfails hlonger, hfails herror]

/-! ### What a token takes of a text -/

/-- Whether a token ends with an operator. -/
def Token.isOperator {K : Type} : Token K → Bool
  | number _ => false
  | name _ => false
  | _ => true

/-- Whether a token is a relation. -/
def Token.isRelation {K : Type} : Token K → Bool
  | relation _ => true
  | _ => false

theorem endsWithOperator_of_getLast? {text after : List Char} {c : Char}
    (h : after.getLast? = some c) : endsWithOperator (text ++ after) = isOperator c := by
  rw [endsWithOperator, List.getLast?_append, h]
  rfl

/-- A run of characters that are no operators does not end with one. -/
theorem endsWithOperator_eq_false {w : List Char} (hne : w ≠ [])
    (h : ∀ c ∈ w, isOperator c = false) (front : List Char) :
    endsWithOperator (front ++ w) = false := by
  rw [endsWithOperator_of_getLast? (List.getLast?_eq_some_getLast hne)]
  exact h _ (List.getLast_mem hne)

theorem isOperator_of_isNumeral {c : Char} (h : isNumeral c = true) : isOperator c = false := by
  rw [isNumeral, Bool.or_eq_true, beq_iff_eq] at h
  exact (isNumeral_plain h).2.2.1

/-- A relation begins with an operator. -/
theorem startsWithRelation_eq_false {c : Char} (h : isOperator c = false) (rest : List Char) :
    startsWithRelation (c :: rest) = false := by
  rw [← Bool.not_eq_true] at h ⊢
  refine fun hrelation => h ?_
  rw [startsWithRelation, List.contains_iff_mem] at hrelation
  rw [isOperator, List.contains_iff_mem]
  exact (by decide : ['<', '>', '='] ⊆ ['+', '-', '*', '<', '>', '=', ':']) hrelation

/-- A number does not end with an operator, though its exponent may have a
sign. -/
theorem endsWithOperator_numeral {c : Char} (hc : isNumeral c = true) (rest : List Char) :
    endsWithOperator (c :: rest.takeWhile isNumeral
      ++ (takeExponent (rest.dropWhile isNumeral)).1) = false := by
  have hnumerals : ∀ d ∈ c :: rest.takeWhile isNumeral, isOperator d = false := by
    refine List.forall_mem_cons.mpr ⟨isOperator_of_isNumeral hc, fun d hd => ?_⟩
    exact isOperator_of_isNumeral (List.all_eq_true.mp List.all_takeWhile d hd)
  have hplain : endsWithOperator (c :: rest.takeWhile isNumeral ++ []) = false := by
    rw [List.append_nil]
    exact endsWithOperator_eq_false (List.cons_ne_nil _ _) hnumerals []
  cases rest.dropWhile isNumeral with
  | nil => exact hplain
  | cons e after =>
      rw [takeExponent]
      split
      · rename_i hexponent
        rw [Bool.and_eq_true] at hexponent
        have hne : (takeSign after).2.takeWhile Char.isDigit ≠ [] := by
          cases hdigits : (takeSign after).2 with
          | nil => rw [hdigits] at hexponent; cases hexponent.2
          | cons d ds =>
              rw [hdigits] at hexponent
              rw [List.takeWhile_cons, if_pos (show d.isDigit = true from hexponent.2)]
              exact List.cons_ne_nil _ _
        rw [← List.append_assoc]
        refine endsWithOperator_eq_false hne (fun d hd => isOperator_of_isNumeral ?_) _
        rw [isNumeral, List.all_eq_true.mp List.all_takeWhile d hd, Bool.true_or]
      · exact hplain

/-- What a token takes of a text shows at its ends which kind of token it
is. -/
theorem tokenAt_cases {c : Char} {rest after : List Char} {t : Token Float}
    (h : tokenAt c rest = .ok (t, after)) :
    ∃ w, rest = w ++ after ∧ endsWithOperator (c :: w) = t.isOperator
      ∧ startsWithRelation (c :: w) = t.isRelation := by
  by_cases hnumeral : isNumeral c = true
  · rw [tokenAt_numeral hnumeral] at h
    split at h
    · cases h
      refine ⟨rest.takeWhile isNumeral ++ (takeExponent (rest.dropWhile isNumeral)).1, ?_,
        endsWithOperator_numeral hnumeral rest,
        startsWithRelation_eq_false (isOperator_of_isNumeral hnumeral) _⟩
      rw [List.append_assoc, takeExponent_eq, List.takeWhile_append_dropWhile]
    · cases h
  by_cases hname : isNameStart c = true
  · have hnames : ∀ d ∈ c :: rest.takeWhile isNameChar, isOperator d = false :=
      List.forall_mem_cons.mpr ⟨(isNameChar_plain (isNameStart_plain hname).1).2.1, fun d hd =>
        (isNameChar_plain (List.all_eq_true.mp List.all_takeWhile d hd)).2.1⟩
    have hkind : t.isOperator = false ∧ t.isRelation = false := by
      rw [tokenAt_name hname] at h
      split at h <;> cases h <;> exact ⟨rfl, rfl⟩
    rw [tokenAt_name hname] at h
    cases h
    refine ⟨rest.takeWhile isNameChar, List.takeWhile_append_dropWhile.symm, ?_, ?_⟩
    · rw [hkind.1]
      exact endsWithOperator_eq_false (List.cons_ne_nil _ _) hnames []
    · rw [hkind.2]
      exact startsWithRelation_eq_false (hnames c (List.mem_cons_self ..)) _
  unfold tokenAt at h
  split at h
  case h_14 =>
    rw [if_neg hnumeral, if_neg hname] at h
    cases h
  case h_2 | h_6 | h_7 | h_8 | h_9 | h_10 =>
    cases h
    exact ⟨[_], rfl, rfl, rfl⟩
  all_goals
    cases h
    exact ⟨[], rfl, rfl, rfl⟩

/-! ### The ends of a text that is taken apart -/

theorem exists_token_of_tokenize {c : Char} {rest : List Char} {ts : List (Token Float)}
    (hc : isBlank c = false) (h : tokenize (c :: rest) = .ok ts) :
    ∃ t after ts', tokenAt c rest = .ok (t, after) ∧ tokenize after = .ok ts' ∧ ts = t :: ts' := by
  cases htoken : tokenAt c rest with
  | error e =>
      rw [tokenize, if_neg (by rw [hc]; exact Bool.false_ne_true)] at h
      split at h <;> simp_all
  | ok p =>
      obtain ⟨t, after⟩ := p
      rw [tokenize_token hc htoken] at h
      cases hafter : tokenize after with
      | error e => rw [hafter] at h; cases h
      | ok ts' =>
          rw [hafter] at h
          exact ⟨t, after, ts', rfl, hafter, (Except.ok.inj h).symm⟩

/-- A text begins with a relation if its first token is one. -/
theorem startsWithRelation_of_tokenize {c : Char} {rest : List Char} {ts : List (Token Float)}
    (hc : isBlank c = false) (h : tokenize (c :: rest) = .ok ts) :
    ∃ t, ts.head? = some t ∧ startsWithRelation (c :: rest) = t.isRelation := by
  obtain ⟨t, after, ts', htoken, _, rfl⟩ := exists_token_of_tokenize hc h
  obtain ⟨w, _, _, hrelation⟩ := tokenAt_cases htoken
  exact ⟨t, rfl, hrelation⟩

/-- A text ends with an operator if its last token does. -/
theorem endsWithOperator_of_tokenize {text : List Char} {c : Char} {ts : List (Token Float)}
    (hlast : text.getLast? = some c) (hc : isBlank c = false) (h : tokenize text = .ok ts) :
    ∃ t, ts.getLast? = some t ∧ endsWithOperator text = t.isOperator := by
  induction text using tokenize.induct generalizing ts with
  | case1 => cases hlast
  | case2 b rest hblank ih =>
      rw [tokenize, if_pos hblank] at h
      cases rest with
      | nil =>
          have hb : b = c := Option.some.inj hlast
          rw [hb, hc] at hblank
          cases hblank
      | cons d rest => exact ih hlast h
  | case3 b rest hblank t after htoken hlength ih =>
      obtain ⟨_, _, ts', htoken', hrest, rfl⟩ :=
        exists_token_of_tokenize (Bool.eq_false_iff.mpr hblank) h
      cases htoken.symm.trans htoken'
      obtain ⟨w, hw, hends, _⟩ := tokenAt_cases htoken
      rw [hw] at hlast ⊢
      cases after with
      | nil =>
          rw [tokenize] at hrest
          cases hrest
          rw [List.append_nil]
          exact ⟨t, rfl, hends⟩
      | cons d after =>
          rw [← List.cons_append, List.getLast?_append_of_ne_nil _ (List.cons_ne_nil _ _)] at hlast
          obtain ⟨u, hu, hoperator⟩ := ih hlast hrest
          refine ⟨u, ?_, ?_⟩
          · rw [List.getLast?_cons, hu]
            rfl
          · rw [← List.cons_append, endsWithOperator_of_getLast? hlast, ← hoperator,
              ← List.nil_append (d :: after), endsWithOperator_of_getLast? hlast]
  | case4 b rest hblank e herror =>
      obtain ⟨t, after, _, htoken, _⟩ := exists_token_of_tokenize (Bool.eq_false_iff.mpr hblank) h
      rw [herror] at htoken
      cases htoken

end LpText

end LinearProgram
