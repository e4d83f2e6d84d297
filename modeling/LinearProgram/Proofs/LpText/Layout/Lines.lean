import LinearProgram.Proofs.LpText.Layout.Copies
import LinearProgram.Proofs.LpText.Layout.Tokens
import LinearProgram.Proofs.LpText.Rejected.Lines

/-!
# `LinearProgram.Proofs.LpText.Layout.Lines`: lines that are cut

A line of a text may be cut in two where the reader joins them again, and
lines without content may be put anywhere. The text has the same
statements then, which stand on other lines and may be spelled with other
spaces.

* `IsCut` says where a line may be cut, `sectionAfter` in which section it
  stands.
* `forall₂_group` compares what is made of pieces when the statement that
  has been begun is spelled in another way, `forall₂_group_cut` what is
  made of a line that is cut.
* `items_inserted` and `items_cut` are the results for the lines of a
  text.
-/

set_option autoImplicit false

namespace LinearProgram.LpText

/-! ### Changes of lines -/

/-- The number of a line when one more line stands behind the first
`count` lines. -/
def shifted (count line : Nat) : Nat := if line ≤ count then line else line + 1

theorem shifted_of_le {count line : Nat} (h : line ≤ count) : shifted count line = line := if_pos h

theorem shifted_of_lt {count line : Nat} (h : count < line) : shifted count line = line + 1 :=
  if_neg (Nat.not_le.mpr h)

/-- The section behind a line. -/
def Section.after (place : Section) (line : List Char) : Section :=
  match header? (stripped line) with
  | some (opened, _) => opened
  | none => place

/-- The section behind the first lines of a text. -/
def sectionAfter (lines : List (List Char)) : Section := lines.foldl Section.after .preamble

/-- Whether a line in a section may be cut in two: nothing of this is a
header, both parts have tokens, which are together those of the line, and
the second part continues the first one. In an objective it always does;
elsewhere there must be an operator at the end or a relation at the
beginning. -/
structure IsCut (place : Section) (line left right : List Char) : Prop where
  header : header? (stripped line) = none
  header_left : header? (stripped left) = none
  header_right : header? (stripped right) = none
  left_ne : stripped left ≠ []
  right_ne : stripped right ≠ []
  tokens : ∃ ts us, tokenize (stripped left) = .ok ts ∧ tokenize (stripped right) = .ok us
    ∧ tokenize (stripped line) = .ok (ts ++ us)
  joins : (∃ sense, place = .objective sense)
    ∨ (place = .constraints ∨ place = .bounds)
      ∧ (endsWithOperator (stripped left) = true ∨ startsWithRelation (stripped right) = true)

variable {isWhole : Bool} {f : Nat → Nat} {place : Section}

/-! ### Statements that have been begun -/

/-- Whether a statement that has been begun is the same in another
spelling, and will be continued by the same contents. -/
structure Numbered.IsCopy (isWhole : Bool) (f : Nat → Nat) (place : Section) (s t : Numbered) :
    Prop where
  line : t.line = f s.line
  text : IsRespelled isWhole place s.text t.text
  ends : endsWithOperator t.text = endsWithOperator s.text

theorem endsWithOperator_append_cons (before : List Char) (c : Char) (text : List Char) :
    endsWithOperator (before ++ c :: text) = endsWithOperator (c :: text) := by
  rw [endsWithOperator, List.getLast?_append_of_ne_nil _ (List.cons_ne_nil _ _), endsWithOperator]

theorem IsRespelled.joined {text text' next next' : List Char}
    (h : IsRespelled isWhole place text text') (h' : IsRespelled isWhole place next next') :
    IsRespelled isWhole place (text ++ ' ' :: next) (text' ++ ' ' :: next') := by
  have htokens : tokenize (text' ++ ' ' :: next') = tokenize (text ++ ' ' :: next) := by
    rw [tokenize_append, tokenize_append, h.tokenize_eq, h'.tokenize_eq]
  rcases h with rfl | ⟨hcut, hplace, _⟩
  · rcases h' with rfl | ⟨hcut, hplace, _⟩
    · exact .inl rfl
    · exact .inr ⟨hcut, hplace, htokens⟩
  · exact .inr ⟨hcut, hplace, htokens⟩

/-- A statement goes on in both spellings. -/
theorem Numbered.IsCopy.joined {s t : Numbered} {next next' : List Char}
    (h : s.IsCopy isWhole f place t) (h' : IsRespelled isWhole place next next')
    (hends : endsWithOperator (' ' :: next') = endsWithOperator (' ' :: next)) :
    Numbered.IsCopy isWhole f place { s with text := s.text ++ ' ' :: next }
      { t with text := t.text ++ ' ' :: next' } := by
  refine ⟨h.line, h.text.joined h', ?_⟩
  rw [endsWithOperator_append_cons, endsWithOperator_append_cons, hends]

theorem Numbered.IsCopy.continues_eq {s t : Numbered} (h : s.IsCopy isWhole f place t)
    {next next' : List Char} (hstarts : startsWithRelation next' = startsWithRelation next) :
    continues place t.text next' = continues place s.text next := by
  unfold continues
  rw [h.ends, hstarts]

theorem Numbered.IsCopy.item {s t : Numbered} (h : s.IsCopy isWhole f place t) :
    Item.IsCopy isWhole f (.statement place s) (.statement place t) := by
  obtain ⟨line, text⟩ := t
  cases h.line
  exact .statement s.line h.text

/-- Whether the same statement has been begun, or none. -/
inductive IsPendingCopy (isWhole : Bool) (f : Nat → Nat) (place : Section) :
    Option Numbered → Option Numbered → Prop
  | none : IsPendingCopy isWhole f place none none
  | some {s t : Numbered} (h : s.IsCopy isWhole f place t) :
    IsPendingCopy isWhole f place (some s) (some t)

/-! ### Pieces -/

/-- A piece with another number. -/
def Piece.renumbered (f : Nat → Nat) : Piece → Piece
  | .header opened => .header opened
  | .content c => .content { c with line := f c.line }

/-- The section behind a piece. -/
def Piece.after (place : Section) : Piece → Section
  | .header opened => opened
  | .content _ => place

theorem Numbered.IsCopy.same (place : Section) (c : Numbered) :
    c.IsCopy isWhole f place { c with line := f c.line } := ⟨rfl, .inl rfl, rfl⟩

theorem forall₂_collected {pending pending' : Option Numbered}
    (h : IsPendingCopy isWhole f place pending pending') :
    List.Forall₂ (Item.IsCopy isWhole f) (collected place pending) (collected place pending') := by
  cases h with
  | none => exact .nil
  | some h => exact .cons h.item .nil

/-- Behind pieces with other numbers, the same has been made of them, and
the statement that has been begun is the same. -/
theorem forall₂_group_append {before rest rest' : List Piece}
    (hrest : ∀ {pending pending'},
      IsPendingCopy isWhole f (before.foldl Piece.after place) pending pending' →
      List.Forall₂ (Item.IsCopy isWhole f)
        (group (before.foldl Piece.after place) pending rest)
        (group (before.foldl Piece.after place) pending' rest'))
    {pending pending' : Option Numbered} (h : IsPendingCopy isWhole f place pending pending') :
    List.Forall₂ (Item.IsCopy isWhole f) (group place pending (before ++ rest))
      (group place pending' (before.map (Piece.renumbered f) ++ rest')) := by
  induction before generalizing place pending pending' with
  | nil => exact hrest h
  | cons piece before ih =>
      cases piece with
      | header opened =>
          exact List.rel_append (forall₂_collected h) (.cons (.opening opened) (ih hrest .none))
      | content c =>
          cases h with
          | none => exact ih hrest (.some (.same place c))
          | @some s t h =>
              show List.Forall₂ _ (group place (some s) (.content c :: (before ++ rest)))
                (group place (some t) (.content { c with line := f c.line } ::
                  (before.map (Piece.renumbered f) ++ rest')))
              rw [group, group, h.continues_eq rfl]
              split
              · exact ih hrest (.some (h.joined (.inl rfl) rfl))
              · exact .cons h.item (ih hrest (.some (.same place c)))

theorem forall₂_group (pieces : List Piece) {pending pending' : Option Numbered}
    (h : IsPendingCopy isWhole f place pending pending') :
    List.Forall₂ (Item.IsCopy isWhole f) (group place pending pieces)
      (group place pending' (pieces.map (Piece.renumbered f))) := by
  have hall := @forall₂_group_append isWhole f place pieces [] [] forall₂_collected _ _ h
  rwa [List.append_nil, List.append_nil] at hall

/-! ### A line that is cut -/

/-- What is left of a line does not begin with a blank. -/
theorem exists_cons_stripped {line : List Char} (h : stripped line ≠ []) :
    ∃ c rest, stripped line = c :: rest ∧ Text.isBlank c = false := by
  obtain ⟨c, rest, heq⟩ := List.exists_cons_of_ne_nil h
  exact ⟨c, rest, heq, Text.isBlank_head_trim heq⟩

/-- What is left of a line does not end with a blank. -/
theorem exists_getLast?_stripped {line : List Char} (h : stripped line ≠ []) :
    ∃ c, (stripped line).getLast? = some c ∧ Text.isBlank c = false := by
  refine ⟨_, List.getLast?_eq_some_getLast h, ?_⟩
  exact Text.isBlank_last_trim (List.dropLast_append_getLast h).symm

namespace IsCut

variable {line left right : List Char}

theorem line_ne (h : IsCut place line left right) : stripped line ≠ [] := by
  obtain ⟨ts, us, hleft, _, hline⟩ := h.tokens
  obtain ⟨c, rest, hcons, hc⟩ := exists_cons_stripped h.left_ne
  rw [hcons] at hleft
  obtain ⟨t, _, ts', _, _, rfl⟩ := exists_token_of_tokenize hc hleft
  intro hnil
  rw [hnil, tokenize] at hline
  cases hline

/-- The first part begins as the line does. -/
theorem starts_eq (h : IsCut place line left right) :
    startsWithRelation (stripped left) = startsWithRelation (stripped line) := by
  obtain ⟨ts, us, hleft, _, hline⟩ := h.tokens
  obtain ⟨c, rest, hcons, hc⟩ := exists_cons_stripped h.left_ne
  obtain ⟨d, rest', hcons', hd⟩ := exists_cons_stripped h.line_ne
  rw [hcons] at hleft ⊢
  rw [hcons'] at hline ⊢
  obtain ⟨t, ht, hrelation⟩ := startsWithRelation_of_tokenize hc hleft
  obtain ⟨u, hu, hrelation'⟩ := startsWithRelation_of_tokenize hd hline
  rw [List.head?_append, ht] at hu
  cases hu
  rw [hrelation, hrelation']

/-- The second part ends as the line does. -/
theorem ends_eq (h : IsCut place line left right) :
    endsWithOperator (stripped right) = endsWithOperator (stripped line) := by
  obtain ⟨ts, us, _, hright, hline⟩ := h.tokens
  obtain ⟨c, hlast, hc⟩ := exists_getLast?_stripped h.right_ne
  obtain ⟨d, hlast', hd⟩ := exists_getLast?_stripped h.line_ne
  obtain ⟨t, ht, hoperator⟩ := endsWithOperator_of_tokenize hlast hc hright
  obtain ⟨u, hu, hoperator'⟩ := endsWithOperator_of_tokenize hlast' hd hline
  rw [List.getLast?_append, ht] at hu
  cases hu
  rw [hoperator, hoperator']

theorem continues_eq (h : IsCut place line left right) (before : List Char) :
    continues place (before ++ stripped left) (stripped right) = true := by
  rcases h.joins with ⟨sense, rfl⟩ | ⟨hplace, hends⟩
  · rfl
  · obtain ⟨c, hlast, _⟩ := exists_getLast?_stripped h.left_ne
    have happend : endsWithOperator (before ++ stripped left)
        = endsWithOperator (stripped left) := by
      rw [endsWithOperator_of_getLast? hlast, ← List.nil_append (stripped left),
        endsWithOperator_of_getLast? hlast]
    have hjoins : (endsWithOperator (before ++ stripped left)
        || startsWithRelation (stripped right)) = true := by
      rw [happend, Bool.or_eq_true]
      exact hends
    rcases hplace with rfl | rfl
    · exact hjoins
    · exact hjoins

theorem isTokenized (h : IsCut place line left right) : place.IsTokenized := by
  rcases h.joins with ⟨sense, rfl⟩ | ⟨rfl | rfl, _⟩ <;> trivial

/-- The parts together are the line in another spelling. -/
theorem isRespelled (h : IsCut place line left right) :
    IsRespelled false place (stripped line) (stripped left ++ ' ' :: stripped right) := by
  obtain ⟨ts, us, hleft, hright, hline⟩ := h.tokens
  refine .inr ⟨rfl, h.isTokenized, ?_⟩
  rw [tokenize_append, hleft, hright, hline]
  rfl

theorem endsWithOperator_joined (h : IsCut place line left right) :
    endsWithOperator (stripped left ++ ' ' :: stripped right)
      = endsWithOperator (stripped line) := by
  rw [endsWithOperator_append _ h.right_ne, h.ends_eq]

/-- The parts of a line that is cut are joined again, also if the line
continues what has been begun. -/
theorem forall₂_group (h : IsCut place line left right) (number number' : Nat)
    (pieces : List Piece) {pending pending' : Option Numbered}
    (hpending : IsPendingCopy false f place pending pending') :
    List.Forall₂ (Item.IsCopy false f)
      (group place pending (.content ⟨number, stripped line⟩ :: pieces))
      (group place pending' (.content ⟨f number, stripped left⟩ ::
        .content ⟨number', stripped right⟩ :: pieces.map (Piece.renumbered f))) := by
  have hjoined : ∀ (n : Nat) (before : List Char) (rest : List Piece),
      group place (some ⟨n, before ++ stripped left⟩) (.content ⟨number', stripped right⟩ :: rest)
        = group place (some ⟨n, before ++ stripped left ++ ' ' :: stripped right⟩) rest := by
    intro n before rest
    rw [group, if_pos (h.continues_eq before)]
  have halone : List.Forall₂ (Item.IsCopy false f)
      (group place (some ⟨number, stripped line⟩) pieces)
      (group place (some ⟨f number, stripped left⟩)
        (.content ⟨number', stripped right⟩ :: pieces.map (Piece.renumbered f))) := by
    have hparts := hjoined (f number) [] (pieces.map (Piece.renumbered f))
    rw [List.nil_append] at hparts
    rw [hparts]
    exact LpText.forall₂_group pieces
      (.some ⟨rfl, h.isRespelled, h.endsWithOperator_joined⟩)
  cases hpending with
  | none => exact halone
  | @some s t hst =>
      rw [group, group, hst.continues_eq h.starts_eq]
      split
      · have hparts := hjoined t.line (t.text ++ [' ']) (pieces.map (Piece.renumbered f))
        have hassoc : ∀ cs : List Char, t.text ++ [' '] ++ cs = t.text ++ ' ' :: cs :=
          fun cs => List.append_assoc t.text [' '] cs
        rw [hassoc] at hparts
        rw [hparts, List.append_assoc, List.cons_append]
        refine LpText.forall₂_group pieces (.some (hst.joined h.isRespelled ?_))
        have hne : stripped left ++ ' ' :: stripped right ≠ [] :=
          List.append_ne_nil_of_left_ne_nil h.left_ne _
        exact (endsWithOperator_append [] hne).trans
          (h.endsWithOperator_joined.trans (endsWithOperator_append [] h.line_ne).symm)
      · exact .cons hst.item halone

end IsCut

/-! ### The lines of a text -/

/-- The pieces of lines, of which the first one has a number. -/
def piecesFrom (first : Nat) (lines : List (List Char)) : List Piece :=
  (numberedFrom first lines).flatMap piecesOf

theorem piecesFrom_cons (first : Nat) (line : List Char) (lines : List (List Char)) :
    piecesFrom first (line :: lines) = piecesOfLine first line ++ piecesFrom (first + 1) lines :=
  piecesOf_numberedFrom_cons first line lines

theorem piecesFrom_append (first : Nat) (before after : List (List Char)) :
    piecesFrom first (before ++ after)
      = piecesFrom first before ++ piecesFrom (first + before.length) after := by
  induction before generalizing first with
  | nil => rfl
  | cons line before ih =>
      rw [List.cons_append, piecesFrom_cons, piecesFrom_cons, ih, List.append_assoc,
        List.length_cons, Nat.add_right_comm, Nat.add_assoc first]

theorem piecesOfLine_renumbered (number : Nat) (line : List Char) :
    piecesOfLine (f number) line = (piecesOfLine number line).map (Piece.renumbered f) := by
  have hcontent : ∀ text, contentOf (f number) text
      = (contentOf number text).map (Piece.renumbered f) := by
    intro text
    cases text <;> rfl
  unfold piecesOfLine
  split
  · rw [List.map_cons, hcontent]
    rfl
  · exact hcontent _

/-- Lines with other numbers. -/
theorem piecesFrom_renumbered {first first' : Nat} {lines : List (List Char)}
    (h : ∀ i < lines.length, f (first + i) = first' + i) :
    piecesFrom first' lines = (piecesFrom first lines).map (Piece.renumbered f) := by
  induction lines generalizing first first' with
  | nil => rfl
  | cons line lines ih =>
      have hfirst : f first = first' := h 0 (Nat.succ_pos _)
      rw [piecesFrom_cons, piecesFrom_cons, List.map_append, ← hfirst, piecesOfLine_renumbered,
        @ih (first + 1) (f first + 1) fun i hi => ?_]
      have hnext := h (i + 1) (Nat.succ_lt_succ hi)
      rw [hfirst, Nat.add_assoc, Nat.add_comm 1 i, hnext, Nat.add_assoc, Nat.add_comm 1 i]

theorem foldl_after_piecesFrom (first : Nat) (lines : List (List Char)) (place : Section) :
    (piecesFrom first lines).foldl Piece.after place = lines.foldl Section.after place := by
  induction lines generalizing first place with
  | nil => rfl
  | cons line lines ih =>
      have hcontent : ∀ text (place : Section),
          (contentOf first text).foldl Piece.after place = place := by
        intro text place
        cases text <;> rfl
      rw [piecesFrom_cons, List.foldl_append, List.foldl_cons, ih]
      refine congrArg (lines.foldl Section.after) ?_
      rw [piecesOfLine, Section.after]
      cases header? (stripped line) with
      | none => exact hcontent _ _
      | some p => exact hcontent _ _

theorem items_eq_group (text : List Char) :
    items text = group .preamble none (piecesFrom 1 (Text.lines text)) := rfl

/-- The first lines of a text keep their numbers. -/
theorem piecesFrom_kept {count : Nat} {before : List (List Char)} (h : before.length ≤ count) :
    piecesFrom 1 before = (piecesFrom 1 before).map (Piece.renumbered (shifted count)) :=
  piecesFrom_renumbered fun i hi => shifted_of_le (by omega)

/-- The other lines are one further down. -/
theorem piecesFrom_moved {count first : Nat} (after : List (List Char)) (h : count < first) :
    piecesFrom (first + 1) after
      = (piecesFrom first after).map (Piece.renumbered (shifted count)) :=
  piecesFrom_renumbered fun i _ => by rw [shifted_of_lt (by omega)]; omega

/-- A line without content only moves the lines behind it. -/
theorem items_inserted {text text' : List Char} {before after : List (List Char)}
    {line : List Char} (h : Text.lines text = before ++ after)
    (h' : Text.lines text' = before ++ line :: after) (hline : stripped line = []) :
    List.Forall₂ (Item.IsCopy isWhole (shifted before.length)) (items text) (items text') := by
  have hnone : header? [] = none := by decide
  have hblank : piecesOfLine (1 + before.length) line = [] := by
    rw [piecesOfLine, hline, hnone]
    rfl
  have hpieces : piecesFrom 1 (Text.lines text')
      = (piecesFrom 1 (Text.lines text)).map (Piece.renumbered (shifted before.length)) := by
    rw [h, h', piecesFrom_append, piecesFrom_cons, hblank, List.nil_append, piecesFrom_append,
      List.map_append, ← piecesFrom_kept (Nat.le_refl _), ← piecesFrom_moved after (by omega)]
  rw [items_eq_group, items_eq_group, hpieces]
  exact forall₂_group _ .none

/-- A line that is cut where it may be leaves the statements as they
are, in another spelling. -/
theorem items_cut {text text' : List Char} {before after : List (List Char)}
    {line left right : List Char} (h : Text.lines text = before ++ line :: after)
    (h' : Text.lines text' = before ++ left :: right :: after)
    (hcut : IsCut (sectionAfter before) line left right) :
    List.Forall₂ (Item.IsCopy false (shifted (before.length + 1))) (items text) (items text') := by
  have hcontent : ∀ {l : List Char} (number : Nat), header? (stripped l) = none →
      stripped l ≠ [] → piecesOfLine number l = [.content ⟨number, stripped l⟩] := by
    intro l number hheader hne
    obtain ⟨c, cs, hcons⟩ := List.exists_cons_of_ne_nil hne
    rw [piecesOfLine, hheader, hcons]
    rfl
  have hline : piecesFrom 1 (Text.lines text) = piecesFrom 1 before
      ++ .content ⟨1 + before.length, stripped line⟩
        :: piecesFrom (1 + before.length + 1) after := by
    rw [h, piecesFrom_append, piecesFrom_cons, hcontent _ hcut.header hcut.line_ne]
    rfl
  have hparts : piecesFrom 1 (Text.lines text')
      = (piecesFrom 1 before).map (Piece.renumbered (shifted (before.length + 1)))
        ++ .content ⟨shifted (before.length + 1) (1 + before.length), stripped left⟩
          :: .content ⟨1 + before.length + 1, stripped right⟩
            :: (piecesFrom (1 + before.length + 1) after).map
              (Piece.renumbered (shifted (before.length + 1))) := by
    rw [h', piecesFrom_append, piecesFrom_cons, piecesFrom_cons,
      hcontent _ hcut.header_left hcut.left_ne, hcontent _ hcut.header_right hcut.right_ne,
      ← piecesFrom_kept (Nat.le_succ _), ← piecesFrom_moved after (by omega),
      shifted_of_le (by omega)]
    rfl
  rw [items_eq_group, items_eq_group, hline, hparts]
  refine forall₂_group_append (fun hpending => ?_) .none
  rw [foldl_after_piecesFrom] at hpending ⊢
  exact hcut.forall₂_group _ _ _ hpending

end LinearProgram.LpText
