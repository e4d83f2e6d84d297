import LinearProgram.Text.Blank

/-!
# `LinearProgram.Proofs.Text.Spaced`: texts made of words

Every line of a written model is a sequence of words with one space in
front of each, and the lines stand one below the other. Both can be
taken apart again.

* `append_cons_inj`: two lists that agree are cut at the same place by
  the first member of a kind, `append_cons_inj_last` by the last.
* `spaced` puts words behind one another. It is a homomorphism from
  lists of words to texts, so what a function writes is described by the
  words it writes.
* `words_spaced` and `spaced_injective`: words without blanks come back.
* `lines_stacked`: lines without line ends come back.
* `trim_spaced`: without the blanks around it, a text of words begins
  with its first word.
-/

set_option autoImplicit false

namespace LinearProgram.Text

/-! ### Cutting lists -/

/-- Two lists that agree are cut at the same place by the first member
that does not have a property. -/
theorem append_cons_inj {α : Type} {p : α → Prop} {as bs rest rest' : List α} {x y : α}
    (has : ∀ a ∈ as, p a) (hbs : ∀ b ∈ bs, p b) (hx : ¬ p x) (hy : ¬ p y)
    (h : as ++ x :: rest = bs ++ y :: rest') : as = bs ∧ x = y ∧ rest = rest' := by
  induction as generalizing bs with
  | nil =>
      cases bs with
      | nil => exact ⟨rfl, List.cons.inj h⟩
      | cons b bs =>
          cases h
          exact absurd (hbs x (List.mem_cons_self ..)) hx
  | cons a as ih =>
      cases bs with
      | nil =>
          cases h
          exact absurd (has y (List.mem_cons_self ..)) hy
      | cons b bs =>
          obtain ⟨hhead, htail⟩ := List.cons.inj h
          obtain ⟨heq, hrest⟩ := ih (fun c hc => has c (List.mem_cons_of_mem _ hc))
            (fun c hc => hbs c (List.mem_cons_of_mem _ hc)) htail
          exact ⟨by rw [hhead, heq], hrest⟩

/-- The same cut made by the last such member. -/
theorem append_cons_inj_last {α : Type} {p : α → Prop} {as bs rest rest' : List α} {x y : α}
    (has : ∀ a ∈ rest, p a) (hbs : ∀ b ∈ rest', p b) (hx : ¬ p x) (hy : ¬ p y)
    (h : as ++ x :: rest = bs ++ y :: rest') : as = bs ∧ x = y ∧ rest = rest' := by
  have hrev := congrArg List.reverse h
  rw [List.reverse_append, List.reverse_append, List.reverse_cons, List.reverse_cons,
    List.append_assoc, List.append_assoc] at hrev
  obtain ⟨hrest, hxy, hfront⟩ := append_cons_inj
    (fun a ha => has a (List.mem_reverse.mp ha)) (fun b hb => hbs b (List.mem_reverse.mp hb))
    hx hy hrev
  exact ⟨List.reverse_inj.mp hfront, hxy, List.reverse_inj.mp hrest⟩

/-! ### Words -/

/-- A text that is one word. -/
def IsWord (w : List Char) : Prop := w ≠ [] ∧ ∀ c ∈ w, isBlank c = false

instance (w : List Char) : Decidable (IsWord w) :=
  @instDecidableAnd _ _ _ (List.decidableBAll _ w)

/-- Words with a space in front of each. -/
def spaced (ws : List (List Char)) : List Char := ws.flatMap fun w => ' ' :: w

@[simp] theorem spaced_nil : spaced [] = [] := rfl

@[simp] theorem spaced_cons (w : List Char) (ws : List (List Char)) :
    spaced (w :: ws) = ' ' :: w ++ spaced ws := rfl

@[simp] theorem spaced_append (ws vs : List (List Char)) :
    spaced (ws ++ vs) = spaced ws ++ spaced vs := List.flatMap_append

theorem isBlank_space : isBlank ' ' = true := by decide

/-- What follows a word in a text of words does not continue it. -/
theorem startsWord_spaced (ws : List (List Char)) : startsWord (spaced ws) = false := by
  cases ws with
  | nil => rfl
  | cons w ws =>
      show (!isBlank ' ') = false
      rw [isBlank_space]
      rfl

theorem words_append {w rest : List Char} (hw : IsWord w) (hrest : startsWord rest = false) :
    words (w ++ rest) = w :: words rest := by
  obtain ⟨hne, hblank⟩ := hw
  induction w with
  | nil => exact absurd rfl hne
  | cons c w ih =>
      have hc : isBlank c = false := hblank c (List.mem_cons_self ..)
      cases w with
      | nil =>
          show words (c :: rest) = _
          rw [words, hc, hrest]
          rfl
      | cons d w =>
          have hd : isBlank d = false :=
            hblank d (List.mem_cons_of_mem _ (List.mem_cons_self ..))
          have hstart : startsWord (d :: w ++ rest) = true := by
            show (!isBlank d) = true
            rw [hd]
            rfl
          have htail : words (d :: w ++ rest) = (d :: w) :: words rest :=
            ih (List.cons_ne_nil _ _) fun e he => hblank e (List.mem_cons_of_mem _ he)
          show words (c :: (d :: w ++ rest)) = _
          rw [words, hc, hstart, htail]
          rfl

/-- Words put behind one another come back. -/
theorem words_spaced {ws : List (List Char)} (h : ∀ w ∈ ws, IsWord w) : words (spaced ws) = ws := by
  induction ws with
  | nil => rfl
  | cons w ws ih =>
      show words (' ' :: (w ++ spaced ws)) = _
      rw [words, if_pos isBlank_space,
        words_append (h w (List.mem_cons_self ..)) (startsWord_spaced ws),
        ih fun v hv => h v (List.mem_cons_of_mem _ hv)]

theorem spaced_injective {ws vs : List (List Char)} (hws : ∀ w ∈ ws, IsWord w)
    (hvs : ∀ w ∈ vs, IsWord w) (h : spaced ws = spaced vs) : ws = vs := by
  rw [← words_spaced hws, h, words_spaced hvs]

/-! ### Lines -/

/-- A text without a character that ends a line. -/
def IsLine (l : List Char) : Prop := ∀ c ∈ l, c ≠ '\n' ∧ c ≠ '\r'

instance (l : List Char) : Decidable (IsLine l) :=
  List.decidableBAll _ l

/-- Lines with a line feed behind each. -/
def stacked (ls : List (List Char)) : List Char := ls.flatMap fun l => l ++ ['\n']

theorem lines_append {l : List Char} (hl : IsLine l) (rest : List Char) :
    lines (l ++ '\n' :: rest) = l :: lines rest := by
  induction l with
  | nil => rfl
  | cons c l ih =>
      obtain ⟨hn, hr⟩ := hl c (List.mem_cons_self ..)
      have htail := ih fun d hd => hl d (List.mem_cons_of_mem _ hd)
      show lines (c :: (l ++ '\n' :: rest)) = _
      rw [lines, htail]
      · intro rest' hc
        exact absurd hc hr
      · intro hc
        exact absurd hc hn

/-- Lines put below one another come back. -/
theorem lines_stacked {ls : List (List Char)} (h : ∀ l ∈ ls, IsLine l) : lines (stacked ls) = ls := by
  induction ls with
  | nil => rfl
  | cons l ls ih =>
      show lines (l ++ ['\n'] ++ stacked ls) = _
      rw [List.append_assoc]
      show lines (l ++ '\n' :: stacked ls) = _
      rw [lines_append (h l (List.mem_cons_self ..)),
        ih fun k hk => h k (List.mem_cons_of_mem _ hk)]

theorem stacked_injective {ls ks : List (List Char)} (hls : ∀ l ∈ ls, IsLine l)
    (hks : ∀ l ∈ ks, IsLine l) (h : stacked ls = stacked ks) : ls = ks := by
  rw [← lines_stacked hls, h, lines_stacked hks]

theorem isLine_of_blankless {w : List Char} (h : ∀ c ∈ w, isBlank c = false) : IsLine w := by
  intro c hc
  have hblank := h c hc
  constructor
  · intro heq
    rw [heq] at hblank
    exact absurd hblank (by decide)
  · intro heq
    rw [heq] at hblank
    exact absurd hblank (by decide)

theorem isLine_of_isWord {w : List Char} (h : IsWord w) : IsLine w := isLine_of_blankless h.2

theorem isLine_spaced {ws : List (List Char)} (h : ∀ w ∈ ws, IsWord w) : IsLine (spaced ws) := by
  intro c hc
  obtain ⟨w, hw, hmem⟩ := List.mem_flatMap.mp hc
  rcases List.mem_cons.mp hmem with rfl | hmem
  · decide
  · exact isLine_of_isWord (h w hw) c hmem

/-! ### Blanks around a text -/

theorem trimLeft_of_isBlank {c : Char} (h : isBlank c = true) (cs : List Char) :
    trimLeft (c :: cs) = trimLeft cs := by
  rw [trimLeft, List.dropWhile_cons, if_pos h]
  rfl

theorem trimLeft_of_isWord {w : List Char} (h : IsWord w) (rest : List Char) :
    trimLeft (w ++ rest) = w ++ rest := by
  obtain ⟨hne, hblank⟩ := h
  cases w with
  | nil => exact absurd rfl hne
  | cons c w =>
      show (c :: (w ++ rest)).dropWhile isBlank = _
      rw [List.dropWhile_cons, if_neg]
      · rfl
      · rw [hblank c (List.mem_cons_self ..)]
        exact Bool.false_ne_true

/-- A text of words ends with its last word, so no blank is behind it. -/
theorem trimRight_of_isWord {cs w : List Char} (h : IsWord w) : trimRight (cs ++ w) = cs ++ w := by
  obtain ⟨hne, hblank⟩ := h
  have hrev : IsWord w.reverse :=
    ⟨fun hnil => hne (List.reverse_eq_nil_iff.mp hnil), fun c hc =>
      hblank c (List.mem_reverse.mp hc)⟩
  show ((cs ++ w).reverse.dropWhile isBlank).reverse = _
  rw [List.reverse_append]
  have hkeep : (w.reverse ++ cs.reverse).dropWhile isBlank = w.reverse ++ cs.reverse :=
    trimLeft_of_isWord hrev cs.reverse
  rw [hkeep, List.reverse_append, List.reverse_reverse, List.reverse_reverse]

theorem trimRight_spaced {ws : List (List Char)} (h : ∀ w ∈ ws, IsWord w) {v : List Char}
    (hv : IsWord v) : trimRight (v ++ spaced ws) = v ++ spaced ws := by
  -- The last word decides, whatever stands before it.
  rcases List.eq_nil_or_concat ws with hnil | ⟨front, last, hlast⟩
  · subst hnil
    rw [spaced_nil, List.append_nil]
    exact @trimRight_of_isWord [] _ hv
  · subst hlast
    have hw : IsWord last := h last (by simp)
    have hlast := @trimRight_of_isWord (v ++ spaced front ++ [' ']) _ hw
    simpa using hlast

/-- Without the blanks around it a text of words begins with its first
word; further blanks before that do not matter. -/
theorem trim_spaced {w : List Char} {ws : List (List Char)} (hw : IsWord w)
    (hws : ∀ v ∈ ws, IsWord v) : trim (' ' :: spaced (w :: ws)) = w ++ spaced ws := by
  have hleft : trimLeft (' ' :: spaced (w :: ws)) = w ++ spaced ws := by
    rw [trimLeft_of_isBlank isBlank_space]
    show trimLeft (' ' :: (w ++ spaced ws)) = _
    rw [trimLeft_of_isBlank isBlank_space, trimLeft_of_isWord hw]
  rw [trim, hleft, trimRight_spaced hws hw]

end LinearProgram.Text
