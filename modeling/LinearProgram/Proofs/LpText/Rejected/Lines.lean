import LinearProgram.LpText.Document
import LinearProgram.Proofs.LpText.Accounted.Passages
import LinearProgram.Proofs.LpText.Reading.Headers

/-!
# `LinearProgram.Proofs.LpText.Rejected.Lines`: a text without some lines

Lines are deleted from a text. A header on a deleted line stays, because
what follows still belongs to the section that it opens; what stands
behind it goes.

* `headerPart` is the header of a line alone, and `headerPart_eq` says
  that it is read as this header and nothing else.
* `strike` deletes lines, and `piecesOfText_strike` says which pieces are
  left. The lines behind a deletion have other numbers, and that is why
  pieces and items are compared `unnumbered`.
-/

set_option autoImplicit false

namespace LinearProgram

open Text (isBlank)

/-! ### Blanks -/

namespace Text

theorem trimRight_append_blank {bs : List Char} (h : ∀ c ∈ bs, isBlank c = true)
    (cs : List Char) : trimRight (cs ++ bs) = trimRight cs := by
  rw [trimRight, List.reverse_append, List.dropWhile_append_of_pos]
  · rfl
  · intro c hc
    exact h c (List.mem_reverse.mp hc)

theorem trimLeft_append_blank {bs : List Char} (h : ∀ c ∈ bs, isBlank c = true)
    (cs : List Char) : trimLeft cs = [] ∧ trimLeft (cs ++ bs) = []
      ∨ trimLeft (cs ++ bs) = trimLeft cs ++ bs := by
  induction cs with
  | nil =>
      refine .inl ⟨rfl, ?_⟩
      show bs.dropWhile isBlank = []
      rw [← List.append_nil bs, List.dropWhile_append_of_pos h]
      rfl
  | cons c cs ih =>
      by_cases hc : isBlank c = true
      · rw [List.cons_append, trimLeft_of_isBlank hc, trimLeft_of_isBlank hc]
        exact ih
      · refine .inr ?_
        rw [List.cons_append, trimLeft, List.dropWhile_cons, if_neg hc, trimLeft,
          List.dropWhile_cons, if_neg hc]
        rfl

/-- Blanks behind a text do not matter. -/
theorem trim_append_blank {bs : List Char} (h : ∀ c ∈ bs, isBlank c = true) (cs : List Char) :
    trim (cs ++ bs) = trim cs := by
  rcases trimLeft_append_blank h cs with ⟨hleft, happend⟩ | happend
  · rw [trim, trim, hleft, happend]
  · rw [trim, trim, happend, trimRight_append_blank h]

/-- A line is read up to its end, without a carriage return there. -/
theorem lines_terminated {l : List Char} (h : ∀ c ∈ l, c ≠ '\n') (rest : List Char) :
    ∃ l', lines (l ++ '\n' :: rest) = l' :: lines rest ∧ (l = l' ∨ l = l' ++ ['\r']) := by
  induction l with
  | nil => exact ⟨[], rfl, .inl rfl⟩
  | cons c l ih =>
      obtain ⟨l', heq, hl'⟩ := ih fun d hd => h d (List.mem_cons_of_mem _ hd)
      by_cases hreturn : c = '\r' ∧ l = []
      · obtain ⟨rfl, rfl⟩ := hreturn
        exact ⟨[], rfl, .inr rfl⟩
      · refine ⟨c :: l', ?_, hl'.imp (congrArg _) (congrArg _)⟩
        show lines (c :: (l ++ '\n' :: rest)) = _
        rw [lines, heq]
        · intro rest' hc heq'
          cases l with
          | nil => exact hreturn ⟨hc, rfl⟩
          | cons d l =>
              have hd : d = '\n' := (List.cons.inj heq').1
              exact h d (List.mem_cons_of_mem _ (List.mem_cons_self ..)) hd
        · intro hc
          exact h c (List.mem_cons_self ..) hc

/-- There is no line feed in a line. -/
theorem ne_lineFeed_of_mem_lines {cs l : List Char} (h : l ∈ lines cs) : ∀ c ∈ l, c ≠ '\n' := by
  induction cs using lines.induct generalizing l with
  | case1 => cases h
  | case2 rest ih =>
      rw [lines] at h
      rcases List.mem_cons.mp h with rfl | h
      · exact fun c hc => absurd hc List.not_mem_nil
      · exact ih h
  | case3 rest ih =>
      rw [lines] at h
      rcases List.mem_cons.mp h with rfl | h
      · exact fun c hc => absurd hc List.not_mem_nil
      · exact ih h
  | case4 c rest hreturn hfeed line others heq ih =>
      rw [lines, heq] at h
      · rcases List.mem_cons.mp h with rfl | h
        · intro d hd
          rcases List.mem_cons.mp hd with rfl | hd
          · exact hfeed
          · exact ih (heq ▸ List.mem_cons_self ..) d hd
        · exact ih (heq ▸ List.mem_cons_of_mem _ h)
      all_goals assumption
  | case5 c rest hreturn hfeed heq ih =>
      rw [lines, heq] at h
      · rw [List.mem_singleton.mp h]
        intro d hd
        rw [List.mem_singleton.mp hd]
        exact hfeed
      all_goals assumption

end Text

namespace LpText

/-! ### Lines as they are read -/

/-- A carriage return at the end of a line is blank, or in a comment. -/
theorem stripped_append_return (l : List Char) : stripped (l ++ ['\r']) = stripped l := by
  have hblank : ∀ c ∈ ['\r'], isBlank c = true := by
    intro c hc
    rw [List.mem_singleton.mp hc]
    decide
  rw [stripped, stripped, List.takeWhile_append]
  split
  · rename_i hall
    have hline : l.takeWhile (· ≠ '\\') = l :=
      (List.takeWhile_prefix _).eq_of_length hall
    rw [hline]
    exact Text.trim_append_blank hblank l
  · rfl

/-- Lines that are put below one another are read as they are. -/
theorem map_stripped_lines_stacked {ls : List (List Char)} (h : ∀ l ∈ ls, ∀ c ∈ l, c ≠ '\n') :
    (Text.lines (Text.stacked ls)).map stripped = ls.map stripped := by
  induction ls with
  | nil => rfl
  | cons l ls ih =>
      obtain ⟨l', heq, hl'⟩ :=
        Text.lines_terminated (h l (List.mem_cons_self ..)) (Text.stacked ls)
      have hlines : Text.lines (Text.stacked (l :: ls)) = l' :: Text.lines (Text.stacked ls) := by
        rw [← heq, Text.stacked, List.flatMap_cons, List.append_assoc]
        rfl
      have hstripped : stripped l' = stripped l := by
        rcases hl' with rfl | rfl
        · rfl
        · exact (stripped_append_return l').symm
      rw [hlines, List.map_cons, List.map_cons, hstripped,
        ih fun k hk => h k (List.mem_cons_of_mem _ hk)]

/-! ### Headers without what follows them -/

/-- The first word of a text, the blanks behind it and what follows. -/
theorem firstWord_cases (cs : List Char) :
    ∃ w bs, cs = w ++ bs ++ (firstWord cs).2 ∧ (firstWord cs).1 = String.ofList (folded w)
      ∧ (∀ c ∈ w, isBlank c = false) ∧ (∀ c ∈ bs, isBlank c = true)
      ∧ (bs = [] → (firstWord cs).2 = []) := by
  refine ⟨cs.takeWhile fun c => !isBlank c,
    (cs.dropWhile fun c => !isBlank c).takeWhile isBlank, ?_, rfl, ?_, ?_, ?_⟩
  · show cs = _ ++ _ ++ List.dropWhile isBlank _
    rw [List.append_assoc, List.takeWhile_append_dropWhile, List.takeWhile_append_dropWhile]
  · intro c hc
    simpa using List.all_eq_true.mp List.all_takeWhile c hc
  · exact List.all_eq_true.mp List.all_takeWhile
  · intro hnil
    show List.dropWhile isBlank _ = []
    -- What is left of the first word begins with a blank, unless it is empty.
    cases hrest : cs.dropWhile fun c => !isBlank c with
    | nil => rfl
    | cons c rest =>
        have hblank := List.head_dropWhile_not (fun c => !isBlank c)
          (by rw [hrest]; exact List.cons_ne_nil c rest)
        simp only [hrest, List.head_cons, Bool.not_eq_false'] at hblank
        rw [hrest, List.takeWhile_cons, if_pos hblank] at hnil
        cases hnil

/-- The first word of a text that consists of a word, blanks and more. -/
theorem firstWord_append {w bs rest : List Char} (hw : ∀ c ∈ w, isBlank c = false)
    (hbs : ∀ c ∈ bs, isBlank c = true) (hrest : ∀ c cs, rest = c :: cs → isBlank c = false)
    (hnil : bs = [] → rest = []) :
    firstWord (w ++ bs ++ rest) = (String.ofList (folded w), rest) := by
  have hnot : ∀ c ∈ w, (!isBlank c) = true := by
    intro c hc
    rw [hw c hc]
    rfl
  have htrim : Text.trimLeft rest = rest := by
    cases rest with
    | nil => rfl
    | cons c cs =>
        rw [Text.trimLeft, List.dropWhile_cons, if_neg]
        rw [hrest c cs rfl]
        exact Bool.false_ne_true
  rw [firstWord, List.append_assoc, List.takeWhile_append_of_pos hnot,
    List.dropWhile_append_of_pos hnot]
  cases bs with
  | nil =>
      rw [hnil rfl]
      simp [Text.trimLeft]
  | cons b bs =>
      have hb := hbs b (List.mem_cons_self ..)
      have htrimmed : Text.trimLeft (b :: bs ++ rest) = rest := by
        rw [Text.trimLeft, List.dropWhile_append_of_pos hbs]
        exact htrim
      simp only [List.cons_append, List.takeWhile_cons, List.dropWhile_cons, hb, Bool.not_true,
        Bool.false_eq_true, if_false, List.append_nil]
      rw [← List.cons_append, htrimmed]

/-- A word without anything behind it. -/
theorem firstWord_eq {w : List Char} (hw : ∀ c ∈ w, isBlank c = false) :
    firstWord w = (String.ofList (folded w), []) := by
  have hempty : ∀ c ∈ ([] : List Char), isBlank c = true := fun c hc => absurd hc List.not_mem_nil
  have h := firstWord_append hw hempty (fun c cs hrest => absurd hrest (List.cons_ne_nil c cs).symm)
    fun _ => rfl
  rwa [List.append_nil, List.append_nil] at h

/-- The header at the beginning of a line, without what follows it. -/
def headerPart (line : List Char) : List (List Char) :=
  match header? (stripped line) with
  | some (_, rest) => [(stripped line).take ((stripped line).length - rest.length)]
  | none => []

theorem mem_takeWhile_of_mem_stripped {line : List Char} {c : Char} (h : c ∈ stripped line) :
    c ∈ line.takeWhile (· ≠ '\\') := by
  have hleft := List.mem_reverse.mp
    ((List.dropWhile_sublist isBlank).subset (List.mem_reverse.mp h))
  exact (List.dropWhile_sublist isBlank).subset hleft

theorem mem_of_mem_stripped {line : List Char} {c : Char} (h : c ∈ stripped line) : c ∈ line :=
  (List.takeWhile_sublist _).subset (mem_takeWhile_of_mem_stripped h)

/-- No comment begins in a line that is read. -/
theorem ne_backslash_of_mem_stripped {line : List Char} {c : Char} (h : c ∈ stripped line) :
    c ≠ '\\' := by
  simpa using List.all_eq_true.mp List.all_takeWhile c (mem_takeWhile_of_mem_stripped h)

/-- Of the beginning of a line only the blanks at its end are lost. -/
theorem stripped_append_blank {line w v bs : List Char} (hw : Text.IsWord w)
    (hv : v = [] ∨ ∃ cs x, v = cs ++ x ∧ Text.IsWord x) (hbs : ∀ c ∈ bs, isBlank c = true)
    (hbegins : w ++ v ++ bs <+: stripped line) : stripped (w ++ v ++ bs) = w ++ v := by
  have hall : ∀ c ∈ w ++ v ++ bs, decide (c ≠ '\\') = true := fun c hc =>
    decide_eq_true (ne_backslash_of_mem_stripped (hbegins.subset hc))
  have htake : (w ++ v ++ bs).takeWhile (· ≠ '\\') = w ++ v ++ bs := by
    rw [← List.append_nil (w ++ v ++ bs), List.takeWhile_append_of_pos hall]
    rfl
  rw [stripped, htake, Text.trim_append_blank hbs, Text.trim, Text.trimLeft_of_isWord hw]
  rcases hv with rfl | ⟨cs, x, rfl, hx⟩
  · rw [List.append_nil]
    exact @Text.trimRight_of_isWord [] _ hw
  · rw [← List.append_assoc]
    exact Text.trimRight_of_isWord hx

/-- No header has an empty second word. -/
theorem secondWord?_ne_some_empty (word : String) :
    secondWord? word ≠ some (String.ofList (folded [])) := by
  intro h
  unfold secondWord? at h
  split at h
  · exact absurd h (by decide)
  split at h
  · exact absurd h (by decide)
  · cases h

/-- A header of two words is one without anything behind it. -/
theorem header?_pair {w bs v : List Char} (hw : ∀ c ∈ w, isBlank c = false)
    (hbs : ∀ c ∈ bs, isBlank c = true) (hne : bs ≠ []) (hv : ∀ c ∈ v, isBlank c = false)
    (h : secondWord? (String.ofList (folded w)) = some (String.ofList (folded v))) :
    header? (w ++ (bs ++ v)) = some (.constraints, []) := by
  have hfirst : firstWord (w ++ (bs ++ v)) = (String.ofList (folded w), v) := by
    rw [← List.append_assoc]
    exact firstWord_append hw hbs (fun c cs hc => hv c (hc ▸ List.mem_cons_self ..))
      fun hnil => absurd hnil hne
  rw [header?, hfirst]
  simp only [h, firstWord_eq hv, if_true]

/-- The words of a header, the blanks behind them and the rest. -/
theorem header?_cases {t rest : List Char} {opened : Section}
    (h : header? t = some (opened, rest)) :
    ∃ w v bs, t = w ++ v ++ bs ++ rest ∧ Text.IsWord w
      ∧ (v = [] ∨ ∃ cs x, v = cs ++ x ∧ Text.IsWord x) ∧ (∀ c ∈ bs, isBlank c = true)
      ∧ header? (w ++ v) = some (opened, []) := by
  obtain ⟨w, bs, hcut, hword, hw, hbs, hnil⟩ := firstWord_cases t
  rw [header?] at h
  simp only [hword] at h
  have hne : w ≠ [] := by
    rintro rfl
    have hsecond : secondWord? (String.ofList (folded [])) = none := by decide
    have hsection : sectionOfWord? (String.ofList (folded [])) = none := by decide
    rw [hsecond, hsection] at h
    cases h
  split at h
  · rename_i expected hexpected
    obtain ⟨v, bs', hcut', hword', hv, hbs', _⟩ := firstWord_cases (firstWord t).2
    simp only [hword'] at h
    split at h
    · rename_i hsecond
      cases h
      rw [← hsecond] at hexpected
      have hvne : v ≠ [] := by
        rintro rfl
        exact secondWord?_ne_some_empty _ hexpected
      have hbsne : bs ≠ [] := by
        intro hbsnil
        rw [hnil hbsnil] at hcut'
        exact hvne (List.append_eq_nil_iff.mp (List.append_eq_nil_iff.mp hcut'.symm).1).1
      refine ⟨w, bs ++ v, bs', hcut.trans ((congrArg (w ++ bs ++ ·) hcut').trans ?_), ⟨hne, hw⟩,
        .inr ⟨bs, v, rfl, hvne, hv⟩, hbs', header?_pair hw hbs hbsne hv hexpected⟩
      simp only [List.append_assoc]
    · cases h
  · rename_i hexpected
    split at h
    · rename_i opened' hopened
      split at h
      · cases h
      · cases h
        refine ⟨w, [], bs, ?_, ⟨hne, hw⟩, .inl rfl, hbs, ?_⟩
        · rw [List.append_nil]
          exact hcut
        · rw [List.append_nil, header?, firstWord_eq hw]
          simp only [hexpected, hopened]
          rfl
    · cases h

/-- What is left of a line opens the same section, and nothing follows. -/
theorem headerPart_eq {line rest : List Char} {opened : Section}
    (h : header? (stripped line) = some (opened, rest)) :
    ∃ part, headerPart line = [part] ∧ header? (stripped part) = some (opened, []) := by
  obtain ⟨w, v, bs, hcut, hw, hv, hbs, hheader⟩ := header?_cases h
  have hpart : headerPart line = [w ++ v ++ bs] := by
    rw [headerPart, h]
    dsimp only
    rw [hcut, List.length_append, Nat.add_sub_cancel, List.take_left]
  refine ⟨w ++ v ++ bs, hpart, ?_⟩
  rw [stripped_append_blank hw hv hbs ⟨rest, hcut.symm⟩]
  exact hheader

/-! ### Pieces without their numbers -/

/-- A piece without its number. -/
def Piece.unnumbered : Piece → Piece
  | .header opened => .header opened
  | .content c => .content { c with line := 0 }

/-- An item without its number. -/
def Item.unnumbered : Item → Item
  | .opening opened => .opening opened
  | .statement place s => .statement place { s with line := 0 }

/-- Statements are made of contents whatever the numbers are. -/
theorem map_unnumbered_group (place : Section) (pending : Option Numbered) (pieces : List Piece) :
    (group place pending pieces).map Item.unnumbered
      = group place (pending.map fun s => { s with line := 0 }) (pieces.map Piece.unnumbered) := by
  induction pieces generalizing place pending with
  | nil => cases pending <;> rfl
  | cons piece rest ih =>
      cases piece with
      | header opened =>
          show (collected place pending ++ .opening opened :: group opened none rest).map _ = _
          rw [List.map_append, List.map_cons, ih]
          cases pending <;> rfl
      | content c =>
          cases pending with
          | none => exact ih place (some c)
          | some before =>
              show _ = group place (some { before with line := 0 })
                (.content { c with line := 0 } :: rest.map Piece.unnumbered)
              rw [group, group]
              split
              · exact ih place _
              · rw [List.map_cons, ih]
                rfl

/-- The pieces of a text. -/
def piecesOfText (text : String) : List Piece := (contents text.toList).flatMap piecesOf

/-- A text as content, unless it is empty. -/
def contentOf (number : Nat) : List Char → List Piece
  | [] => []
  | text => [.content ⟨number, text⟩]

/-- The pieces of one line. -/
def piecesOfLine (number : Nat) (line : List Char) : List Piece :=
  match header? (stripped line) with
  | some (opened, rest) => .header opened :: contentOf number rest
  | none => contentOf number (stripped line)

theorem piecesOf_numberedFrom_cons (first : Nat) (l : List Char) (ls : List (List Char)) :
    (numberedFrom first (l :: ls)).flatMap piecesOf
      = piecesOfLine first l ++ (numberedFrom (first + 1) ls).flatMap piecesOf := by
  have hnone : header? [] = none := by decide
  rw [numberedFrom, piecesOfLine]
  cases htext : stripped l with
  | nil =>
      rw [hnone]
      rfl
  | cons c cs =>
      rw [List.flatMap_cons, piecesOf]
      cases header? (c :: cs) with
      | none => rfl
      | some p =>
          obtain ⟨opened, rest⟩ := p
          cases rest <;> rfl

/-- Of a line only what is stripped of it counts. -/
theorem numberedFrom_congr (first : Nat) {ls ks : List (List Char)}
    (h : ls.map stripped = ks.map stripped) : numberedFrom first ls = numberedFrom first ks := by
  induction ls generalizing first ks with
  | nil =>
      cases ks with
      | nil => rfl
      | cons k ks => cases h
  | cons l ls ih =>
      cases ks with
      | nil => cases h
      | cons k ks =>
          obtain ⟨hhead, htail⟩ := List.cons.inj h
          rw [numberedFrom, numberedFrom, hhead, ih _ htail]

/-- Whether a piece is content of a line with one of some numbers. -/
def Piece.isOn (numbers : List Nat) : Piece → Bool
  | .header _ => false
  | .content c => numbers.contains c.line

theorem line_eq_of_mem_contentOf {number : Nat} {text : List Char} {c : Numbered}
    (h : .content c ∈ contentOf number text) : c.line = number := by
  cases text with
  | nil => cases h
  | cons d ds =>
      cases List.mem_singleton.mp h
      rfl

/-- All contents of a line bear its number. -/
theorem line_eq_of_mem_piecesOfLine {number : Nat} {line : List Char} {c : Numbered}
    (h : .content c ∈ piecesOfLine number line) : c.line = number := by
  unfold piecesOfLine at h
  split at h
  · rcases List.mem_cons.mp h with h | h
    · cases h
    · exact line_eq_of_mem_contentOf h
  · exact line_eq_of_mem_contentOf h

/-! ### Deleting lines -/

/-- Lines without those with some numbers, of which only headers stay. -/
def struckFrom (numbers : List Nat) (first : Nat) : List (List Char) → List (List Char)
  | [] => []
  | line :: rest =>
    (if numbers.contains first then headerPart line else [line])
      ++ struckFrom numbers (first + 1) rest

/-- A text without the lines with some numbers. A header at the
beginning of such a line stays. -/
def strike (numbers : List Nat) (text : String) : String :=
  String.ofList (Text.stacked (struckFrom numbers 1 (Text.lines text.toList)))

theorem filter_contentOf {numbers : List Nat} {number : Nat} (h : numbers.contains number = true)
    (text : List Char) : ((contentOf number text).filter fun p => !p.isOn numbers) = [] := by
  refine List.filter_eq_nil_iff.mpr fun p hp => ?_
  cases p with
  | header opened => cases text <;> simp [contentOf] at hp
  | content c => rw [Piece.isOn, line_eq_of_mem_contentOf hp, h]; decide

/-- Of a line that is deleted the header is left. -/
theorem filter_isOn_of_mem {numbers : List Nat} {number : Nat} (h : numbers.contains number = true)
    (line : List Char) (number' : Nat) :
    ((piecesOfLine number line).filter fun p => !p.isOn numbers)
      = (headerPart line).flatMap (piecesOfLine number') := by
  cases hheader : header? (stripped line) with
  | none =>
      rw [headerPart, piecesOfLine, hheader]
      exact filter_contentOf h _
  | some p =>
      obtain ⟨opened, rest⟩ := p
      obtain ⟨part, hpart, hopened⟩ := headerPart_eq hheader
      rw [hpart, List.flatMap_singleton, piecesOfLine, piecesOfLine, hheader, hopened]
      exact congrArg _ (filter_contentOf h rest)

theorem filter_isOn_of_not_mem {numbers : List Nat} {number : Nat}
    (h : numbers.contains number = false) (line : List Char) :
    ((piecesOfLine number line).filter fun p => !p.isOn numbers) = piecesOfLine number line := by
  refine List.filter_eq_self.mpr fun p hp => ?_
  cases p with
  | header opened => rfl
  | content c => rw [Piece.isOn, line_eq_of_mem_piecesOfLine hp, h, Bool.not_false]

/-- The number of a line does not matter otherwise. -/
theorem map_unnumbered_piecesOfLine (number number' : Nat) (line : List Char) :
    (piecesOfLine number line).map Piece.unnumbered
      = (piecesOfLine number' line).map Piece.unnumbered := by
  have hcontent : ∀ text, (contentOf number text).map Piece.unnumbered
      = (contentOf number' text).map Piece.unnumbered := by
    intro text
    cases text <;> rfl
  unfold piecesOfLine
  split
  · rw [List.map_cons, List.map_cons, hcontent]
  · exact hcontent _

/-- What is left of a line is a part of it. -/
theorem mem_of_mem_headerPart {line part : List Char} (h : part ∈ headerPart line) {c : Char}
    (hc : c ∈ part) : c ∈ line := by
  unfold headerPart at h
  split at h
  · rw [List.mem_singleton.mp h] at hc
    exact mem_of_mem_stripped (List.mem_of_mem_take hc)
  · cases h

theorem ne_lineFeed_of_mem_struckFrom {numbers : List Nat} {first : Nat} {ls : List (List Char)}
    (h : ∀ l ∈ ls, ∀ c ∈ l, c ≠ '\n') : ∀ l ∈ struckFrom numbers first ls, ∀ c ∈ l, c ≠ '\n' := by
  induction ls generalizing first with
  | nil => exact fun l hl => absurd hl List.not_mem_nil
  | cons line ls ih =>
      intro l hl c hc
      rcases List.mem_append.mp hl with hl | hl
      · have hline := h line (List.mem_cons_self ..) c
        split at hl
        · exact hline (mem_of_mem_headerPart hl hc)
        · exact hline (List.mem_singleton.mp hl ▸ hc)
      · exact ih (fun k hk => h k (List.mem_cons_of_mem _ hk)) l hl c hc

theorem pieces_struckFrom (numbers : List Nat) (first first' : Nat) (ls : List (List Char)) :
    ((numberedFrom first' (struckFrom numbers first ls)).flatMap piecesOf).map Piece.unnumbered
      = (((numberedFrom first ls).flatMap piecesOf).filter fun p => !p.isOn numbers).map
        Piece.unnumbered := by
  induction ls generalizing first first' with
  | nil => rfl
  | cons l ls ih =>
      rw [struckFrom, piecesOf_numberedFrom_cons, List.filter_append, List.map_append]
      split
      · rename_i hstruck
        rw [filter_isOn_of_mem hstruck l first']
        cases hpart : headerPart l with
        | nil =>
            rw [List.nil_append, List.flatMap_nil, List.map_nil, List.nil_append]
            exact ih _ _
        | cons part parts =>
            -- There is one header at most.
            have hnil : parts = [] := by
              unfold headerPart at hpart
              split at hpart
              · exact (List.cons.inj hpart).2.symm
              · cases hpart
            rw [hnil, List.singleton_append, piecesOf_numberedFrom_cons, List.map_append, ih,
              List.flatMap_singleton]
      · rename_i hkept
        rw [filter_isOn_of_not_mem (Bool.not_eq_true _ ▸ hkept), List.singleton_append,
          piecesOf_numberedFrom_cons, List.map_append, ih,
          map_unnumbered_piecesOfLine first' first]

/-- Deleting lines deletes their contents, and nothing else. -/
theorem piecesOfText_strike (numbers : List Nat) (text : String) :
    (piecesOfText (strike numbers text)).map Piece.unnumbered
      = ((piecesOfText text).filter fun p => !p.isOn numbers).map Piece.unnumbered := by
  have hlines : ∀ l ∈ struckFrom numbers 1 (Text.lines text.toList), ∀ c ∈ l, c ≠ '\n' :=
    ne_lineFeed_of_mem_struckFrom fun l => Text.ne_lineFeed_of_mem_lines
  rw [piecesOfText, contents, strike, String.toList_ofList,
    numberedFrom_congr 1 (map_stripped_lines_stacked hlines), pieces_struckFrom]
  rfl

end LpText

end LinearProgram
