import LinearProgram.Proofs.LpText.Rejected.Lines

/-!
# `LinearProgram.Proofs.LpText.Rejected.Statements`: a text without a statement

A statement can be taken out of a text by deleting its lines. Nothing
else becomes of the other ones: two neighbours of a statement were not
continued by it, so they do not continue one another.

* `exists_run`: a statement is made of a run of contents, and without
  this run the pieces make the other items.
* `items_strike` says the same of the lines of a text.
-/

set_option autoImplicit false

namespace LinearProgram.LpText

/-! ### The contents of a statement -/

/-- Whether what follows does not continue a statement. -/
def Stops (place : Section) (before : List Char) : List Piece → Prop
  | .content c :: _ => continues place before c.text = false
  | _ => True

/-- What stops a statement, and is no continuation of an earlier one
itself, stops that one as well: of the two ends that decide, one belongs
to each of them. -/
theorem Stops.of_neighbour {place : Section} {before first between : List Char}
    {pieces : List Piece} (h : Stops place between pieces)
    (hfirst : continues place before first = false) : Stops place before pieces := by
  cases pieces with
  | nil => trivial
  | cons piece pieces =>
      cases piece with
      | header opened => trivial
      | content c =>
          have hc : continues place between c.text = false := h
          show continues place before c.text = false
          unfold continues at hfirst hc ⊢
          cases place <;> simp_all

theorem group_of_stops {place : Section} {before : Numbered} {pieces : List Piece}
    (h : Stops place before.text pieces) :
    group place (some before) pieces = .statement place before :: group place none pieces := by
  cases pieces with
  | nil => rfl
  | cons piece pieces =>
      cases piece with
      | header opened => rfl
      | content c =>
          have hc : continues place before.text c.text = false := h
          simp only [group, hc, Bool.false_eq_true, if_false]

/-- Whether contents complete a statement that has been begun, and what
follows makes the items `after`. -/
def IsCompleted (place : Section) (begun : List Numbered) (pieces : List Piece) (st : Numbered)
    (after : List Item) : Prop :=
  ∃ run post, pieces = run.map .content ++ post ∧ merged (begun ++ run) = some st
    ∧ Stops place st.text post ∧ group place none post = after

/-- Whether pieces have a run of contents that makes a statement, and
make the items `others` without it. -/
def HasRun (place : Section) (pending : Option Numbered) (pieces : List Piece) (st : Numbered)
    (others : List Item) : Prop :=
  ∃ pre run post, pieces = pre ++ run.map .content ++ post ∧ merged run = some st
    ∧ group place pending (pre ++ post) = others

section

variable {place : Section} {pending pending' : Option Numbered} {pieces : List Piece}
  {begun : List Numbered} {st c : Numbered} {after others : List Item}

theorem isCompleted_of_stops (h : merged begun = some st) (hstops : Stops place st.text pieces)
    (hafter : group place none pieces = after) : IsCompleted place begun pieces st after :=
  ⟨[], pieces, rfl, by rw [List.append_nil, h], hstops, hafter⟩

theorem IsCompleted.cons (h : IsCompleted place (begun ++ [c]) pieces st after) :
    IsCompleted place begun (.content c :: pieces) st after := by
  obtain ⟨run, post, rfl, hrun, hrest⟩ := h
  rw [List.append_assoc] at hrun
  exact ⟨c :: run, post, rfl, hrun, hrest⟩

/-- A statement that has just been begun is one of the pieces. -/
theorem IsCompleted.hasRun (h : IsCompleted place [] pieces st after) :
    HasRun place none pieces st after := by
  obtain ⟨run, post, hpieces, hrun, _, hafter⟩ := h
  exact ⟨[], run, post, hpieces, hrun, hafter⟩

/-- Without the statement that comes next, the one that has been begun is
over all the same. -/
theorem IsCompleted.hasRun_of_not_continues {p : Numbered}
    (h : IsCompleted place [c] pieces st after) (hc : continues place p.text c.text = false) :
    HasRun place (some p) (.content c :: pieces) st (.statement place p :: after) := by
  obtain ⟨run, post, rfl, hrun, hstops, rfl⟩ := h
  exact ⟨[], c :: run, post, rfl, hrun, group_of_stops (hstops.of_neighbour hc)⟩

/-- A piece in front makes the items `front`, whatever follows. -/
theorem HasRun.cons {piece : Piece} {place' : Section} (h : HasRun place' pending' pieces st others)
    (front : List Item)
    (hfront : ∀ rest, group place pending (piece :: rest) = front ++ group place' pending' rest) :
    HasRun place pending (piece :: pieces) st (front ++ others) := by
  obtain ⟨pre, run, post, rfl, hrun, rfl⟩ := h
  exact ⟨piece :: pre, run, post, rfl, hrun, hfront _⟩

theorem group_header (place opened : Section) (pending : Option Numbered) (rest : List Piece) :
    group place pending (.header opened :: rest)
      = (collected place pending ++ [.opening opened]) ++ group opened none rest := by
  rw [group, List.append_assoc, List.singleton_append]

end

/-- Where an item is a statement, there are contents that it is made of,
and the other items are made of the other pieces. The statement may have
been begun before, by the contents `begun`. -/
theorem exists_run {place q : Section} {pending : Option Numbered} {pieces : List Piece}
    {before after : List Item} {st : Numbered} {begun : List Numbered}
    (hbegun : merged begun = pending)
    (h : group place pending pieces = before ++ .statement q st :: after) :
    (before = [] ∧ place = q ∧ IsCompleted place begun pieces st after)
      ∨ HasRun place pending pieces st (before ++ after) := by
  induction pieces generalizing place pending before begun with
  | nil =>
      cases pending with
      | none => simp [group, collected] at h
      | some p =>
          rcases List.cons_eq_append_iff.mp h with ⟨hbefore, heq⟩ | ⟨rest, _, hrest⟩
          · cases heq
            exact .inl ⟨hbefore, rfl, isCompleted_of_stops hbegun trivial rfl⟩
          · simp at hrest
  | cons piece pieces ih =>
      cases piece with
      | header opened =>
          have hnext : ∀ {before'}, .opening opened :: group opened none pieces
                = before' ++ .statement q st :: after →
              ∃ rest, before' = .opening opened :: rest
                ∧ HasRun opened none pieces st (rest ++ after) := by
            intro before' heq
            rcases List.cons_eq_append_iff.mp heq with ⟨_, heq⟩ | ⟨rest, hrest, heq⟩
            · cases heq
            · rcases @ih opened none rest [] rfl heq with ⟨rfl, rfl, hcompleted⟩ | hrun
              · exact ⟨[], hrest, hcompleted.hasRun⟩
              · exact ⟨rest, hrest, hrun⟩
          cases pending with
          | none =>
              obtain ⟨rest, rfl, hrun⟩ := hnext h
              exact .inr (hrun.cons _ (group_header place opened none))
          | some p =>
              rcases List.cons_eq_append_iff.mp h with ⟨hbefore, heq⟩ | ⟨others, rfl, hothers⟩
              · cases heq
                exact .inl ⟨hbefore, rfl, isCompleted_of_stops hbegun trivial rfl⟩
              · obtain ⟨rest, rfl, hrun⟩ := hnext hothers
                exact .inr (hrun.cons _ (group_header place opened (some p)))
      | content c =>
          cases pending with
          | none =>
              have hnil : begun = [] := by
                cases begun with
                | nil => rfl
                | cons d ds => cases hbegun
              subst hnil
              rcases ih (merged_singleton c) h with ⟨hbefore, hplace, hcompleted⟩ | hrun
              · exact .inl ⟨hbefore, hplace, hcompleted.cons⟩
              · exact .inr (hrun.cons [] fun rest => rfl)
          | some p =>
              cases hjoins : continues place p.text c.text with
              | true =>
                  -- The content belongs to the statement that has been begun.
                  have hgroup : ∀ rest, group place (some p) (.content c :: rest)
                      = group place (some { p with text := p.text ++ ' ' :: c.text }) rest := by
                    intro rest
                    simp only [group, hjoins, if_true]
                  rw [hgroup] at h
                  rcases ih (merged_append hbegun c) h with ⟨hbefore, hplace, hcompleted⟩ | hrun
                  · exact .inl ⟨hbefore, hplace, hcompleted.cons⟩
                  · exact .inr (hrun.cons [] hgroup)
              | false =>
                  -- That statement is over, and the next one begins with the content.
                  have hgroup : ∀ rest, group place (some p) (.content c :: rest)
                      = .statement place p :: group place (some c) rest := by
                    intro rest
                    simp only [group, hjoins, Bool.false_eq_true, if_false]
                  rw [hgroup] at h
                  rcases List.cons_eq_append_iff.mp h with ⟨hbefore, heq⟩ | ⟨rest, rfl, hrest⟩
                  · cases heq
                    exact .inl ⟨hbefore, rfl, isCompleted_of_stops hbegun hjoins rfl⟩
                  · rcases ih (merged_singleton c) hrest with ⟨rfl, rfl, hcompleted⟩ | hrun
                    · exact .inr (hcompleted.hasRun_of_not_continues hjoins)
                    · exact .inr (hrun.cons [.statement place p] hgroup)

/-! ### The lines of a statement -/

/-- The number of a content. -/
def Piece.line? : Piece → Option Nat
  | .header _ => none
  | .content c => some c.line

theorem sublist_lines_numberedFrom (first : Nat) (ls : List (List Char)) :
    ((numberedFrom first ls).map Numbered.line).Sublist (List.range' first ls.length) := by
  induction ls generalizing first with
  | nil => exact .slnil
  | cons l ls ih =>
      rw [List.length_cons, List.range'_succ, numberedFrom]
      split
      · exact (ih (first + 1)).cons _
      · exact (ih (first + 1)).cons_cons _

/-- Each line has one content at most. -/
theorem sublist_lines_pieces (L : List Numbered) :
    ((L.flatMap piecesOf).filterMap Piece.line?).Sublist (L.map Numbered.line) := by
  induction L with
  | nil => exact .slnil
  | cons c L ih =>
      rw [List.flatMap_cons, List.filterMap_append, List.map_cons, ← List.singleton_append]
      refine .append ?_ ih
      rw [piecesOf]
      split
      · exact .cons _ .slnil
      · exact .refl _
      · exact .refl _

/-- Different contents of a text are on different lines. -/
theorem nodup_lines (text : String) : ((piecesOfText text).filterMap Piece.line?).Nodup :=
  ((sublist_lines_pieces _).trans (sublist_lines_numberedFrom _ _)).nodup List.nodup_range'

/-- The other pieces are on other lines. -/
theorem filter_isOn_run {pre post : List Piece} {run : List Numbered}
    (h : ((pre ++ run.map Piece.content ++ post).filterMap Piece.line?).Nodup) :
    ((pre ++ run.map Piece.content ++ post).filter fun p => !p.isOn (run.map Numbered.line))
      = pre ++ post := by
  have hrun : (run.map Piece.content).filterMap Piece.line? = run.map Numbered.line := by
    rw [List.filterMap_map, ← List.filterMap_eq_map]
    rfl
  rw [List.filterMap_append, List.filterMap_append, hrun] at h
  have hother : ∀ {pieces : List Piece},
      (∀ n ∈ pieces.filterMap Piece.line?, n ∉ run.map Numbered.line) →
      (pieces.filter fun p => !p.isOn (run.map Numbered.line)) = pieces := by
    intro pieces hpieces
    refine List.filter_eq_self.mpr fun p hp => ?_
    cases p with
    | header opened => rfl
    | content c =>
        have hline := hpieces c.line (List.mem_filterMap.mpr ⟨_, hp, rfl⟩)
        rw [Piece.isOn, Bool.not_eq_true', ← Bool.not_eq_true, List.contains_iff_mem]
        exact hline
  have hown : ((run.map Piece.content).filter fun p => !p.isOn (run.map Numbered.line)) = [] := by
    refine List.filter_eq_nil_iff.mpr fun p hp => ?_
    obtain ⟨c, hc, rfl⟩ := List.mem_map.mp hp
    rw [Piece.isOn, Bool.not_eq_true', Bool.not_eq_false, List.contains_iff_mem]
    exact List.mem_map_of_mem hc
  obtain ⟨hfront, hpost, hdisjoint⟩ := List.nodup_append.mp h
  obtain ⟨_, _, hpre⟩ := List.nodup_append.mp hfront
  rw [List.filter_append, List.filter_append, hown, List.append_nil,
    hother fun n hn hmem => hpre n hn n hmem rfl,
    hother fun n hn hmem => hdisjoint n (List.mem_append_right _ hmem) n hn rfl]

/-- Without the lines of a statement a text has all other items, up to
the numbers of the lines. -/
theorem items_strike {text : String} {before after : List Item} {q : Section} {st : Numbered}
    (h : items text.toList = before ++ .statement q st :: after) :
    ∃ run, merged run = some st ∧ run.map .content <:+: piecesOfText text
      ∧ (items (strike (run.map Numbered.line) text).toList).map Item.unnumbered
        = (before ++ after).map Item.unnumbered := by
  have hrun : HasRun .preamble none (piecesOfText text) st (before ++ after) := by
    rcases @exists_run _ _ _ _ _ _ _ [] rfl h with ⟨rfl, _, hcompleted⟩ | hrun
    · exact hcompleted.hasRun
    · exact hrun
  obtain ⟨pre, run, post, hpieces, hrun, hothers⟩ := hrun
  refine ⟨run, hrun, ⟨pre, post, hpieces.symm⟩, ?_⟩
  have hleft : ((piecesOfText text).filter fun p => !p.isOn (run.map Numbered.line))
      = pre ++ post := by
    have hnodup := nodup_lines text
    rw [hpieces] at hnodup ⊢
    exact filter_isOn_run hnodup
  show (group .preamble none (piecesOfText (strike (run.map Numbered.line) text))).map _ = _
  rw [map_unnumbered_group, piecesOfText_strike, hleft, ← hothers, map_unnumbered_group]

end LinearProgram.LpText
