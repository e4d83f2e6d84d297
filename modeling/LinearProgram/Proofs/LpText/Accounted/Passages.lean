import Mathlib.Data.List.SplitBy
import LinearProgram.LpText.Statement

/-!
# `LinearProgram.Proofs.LpText.Accounted.Passages`: what becomes of the lines

The reader goes through the pieces of a text once and keeps the
statement that it has begun. What comes out can be said without this
statement: the headers cut the contents into passages, and a passage is
cut wherever a content does not continue the one before it.

* `layout` gives the contents before the first header, and the passages,
  of a header and contents each; `layout_eq`: these are all pieces.
* `Passage.statements` are the longest runs of contents in which each one
  continues the one before it, joined by spaces.
* `group_passages`: the reader deals with the statements of each passage,
  in the order of the text, and with nothing else.
-/

set_option autoImplicit false

namespace LinearProgram.LpText

/-- Contents and the section in which they stand. -/
structure Passage where
  place : Section
  contents : List Numbered

/-- Some contents as one statement, which bears the number of the first
one. -/
def merged : List Numbered → Option Numbered
  | [] => none
  | c :: rest => some ⟨c.line, c.text ++ rest.flatMap fun d => ' ' :: d.text⟩

namespace Passage

/-- The header of a passage and its contents. -/
def pieces (p : Passage) : List Piece := .header p.place :: p.contents.map .content

/-- Contents that continue one another make one statement. -/
def statements (p : Passage) : List Numbered :=
  (p.contents.splitBy fun before next => continues p.place before.text next.text).filterMap merged

/-- What the reader makes of the contents of a passage. -/
def items (p : Passage) : List Item := p.statements.map (.statement p.place)

end Passage

/-- The contents before the first header, and the passages from there on. -/
def layout : List Piece → List Numbered × List Passage
  | [] => ([], [])
  | .header opened :: rest => ([], ⟨opened, (layout rest).1⟩ :: (layout rest).2)
  | .content c :: rest => (c :: (layout rest).1, (layout rest).2)

/-- Every piece belongs to a passage, or precedes all of them. -/
theorem layout_eq (pieces : List Piece) :
    pieces = (layout pieces).1.map .content ++ (layout pieces).2.flatMap Passage.pieces := by
  induction pieces with
  | nil => rfl
  | cons piece pieces ih =>
      cases piece with
      | header opened =>
          show _ = .header opened :: ((layout pieces).1.map .content
            ++ (layout pieces).2.flatMap Passage.pieces)
          rw [← ih]
      | content c =>
          show _ = .content c :: ((layout pieces).1.map .content
            ++ (layout pieces).2.flatMap Passage.pieces)
          rw [← ih]

/-! ### Contents are not empty -/

theorem text_ne_nil_of_mem_numberedFrom {first : Nat} {ls : List (List Char)} {c : Numbered}
    (h : c ∈ numberedFrom first ls) : c.text ≠ [] := by
  induction ls generalizing first with
  | nil => cases h
  | cons l ls ih =>
      rw [numberedFrom] at h
      split at h
      · exact ih h
      · rename_i hstripped
        rcases List.mem_cons.mp h with rfl | h
        · exact hstripped
        · exact ih h

/-- What a text contributes besides its headers is not empty. -/
theorem text_ne_nil_of_mem_pieces {text : List Char} {c : Numbered}
    (h : .content c ∈ (contents text).flatMap piecesOf) : c.text ≠ [] := by
  obtain ⟨line, hline, h⟩ := List.mem_flatMap.mp h
  unfold piecesOf at h
  split at h
  · rcases List.mem_singleton.mp h with h
    cases h
  · rename_i opened rest hrest heq
    rcases List.mem_cons.mp h with h | h
    · cases h
    · cases List.mem_singleton.mp h
      exact hrest
  · cases List.mem_singleton.mp h
    exact text_ne_nil_of_mem_numberedFrom hline

/-! ### Runs of contents -/

theorem merged_singleton (c : Numbered) : merged [c] = some c := by
  rw [merged, List.flatMap_nil, List.append_nil]

theorem merged_append {run : List Numbered} {statement : Numbered}
    (h : merged run = some statement) (c : Numbered) :
    merged (run ++ [c]) = some { statement with text := statement.text ++ ' ' :: c.text } := by
  cases run with
  | nil => cases h
  | cons d run =>
      cases h
      rw [List.cons_append, merged, List.flatMap_append, List.append_assoc, List.flatMap_singleton]

/-- Whether a statement is continued depends on its last content. -/
theorem endsWithOperator_append (before : List Char) {next : List Char} (h : next ≠ []) :
    endsWithOperator (before ++ ' ' :: next) = endsWithOperator next := by
  have hlast : (before ++ ' ' :: next).getLast? = next.getLast? := by
    rw [List.getLast?_append_of_ne_nil _ (List.cons_ne_nil _ _)]
    exact List.getLast?_cons_of_ne_nil h
  rw [endsWithOperator, hlast, endsWithOperator]

theorem continues_congr {before before' : List Char}
    (h : endsWithOperator before = endsWithOperator before') (place : Section)
    (next : List Char) : continues place before next = continues place before' next := by
  unfold continues
  rw [h]

/-- With a run of contents begun, the statements are those of the run and
what follows it. Here `last` is the last content of the run, by which
the statement is continued or not. -/
theorem group_run {place : Section} (run : List Numbered) {cs : List Numbered}
    (last statement : Numbered) {rest : List Piece} {tail : List Item}
    (hrun : (run ++ [last]).IsChain fun before next => continues place before.text next.text)
    (hmerged : merged (run ++ [last]) = some statement)
    (hends : endsWithOperator statement.text = endsWithOperator last.text)
    (hcs : ∀ c ∈ cs, c.text ≠ [])
    (hrest : ∀ pending, group place pending rest = collected place pending ++ tail) :
    group place (some statement) (cs.map .content ++ rest)
      = Passage.items ⟨place, run ++ [last] ++ cs⟩ ++ tail := by
  induction cs generalizing run last statement with
  | nil =>
      rw [List.append_nil, Passage.items, Passage.statements,
        List.splitBy_of_isChain (List.append_ne_nil_of_right_ne_nil _ (List.cons_ne_nil _ _)) hrun]
      simp only [List.filterMap_cons, hmerged, List.filterMap_nil]
      exact hrest (some statement)
  | cons c cs ih =>
      have hc := hcs c (List.mem_cons_self ..)
      have hcs := fun d hd => hcs d (List.mem_cons_of_mem _ hd)
      have hsame : continues place statement.text c.text = continues place last.text c.text :=
        continues_congr hends place c.text
      show group place (some statement) (.content c :: (cs.map .content ++ rest)) = _
      rw [group, hsame]
      cases hjoins : continues place last.text c.text with
      | true =>
          -- The content belongs to the run, which gets longer.
          have hlonger : (run ++ [last] ++ [c]).IsChain
              fun before next => continues place before.text next.text :=
            List.isChain_append.mpr ⟨hrun, List.isChain_singleton c, fun x hx y hy => by
              rw [List.getLast?_concat, Option.mem_some_iff] at hx
              rw [List.head?_cons, Option.mem_some_iff] at hy
              rw [← hx, ← hy]
              exact hjoins⟩
          have hstep := ih (run ++ [last]) c _ hlonger (merged_append hmerged c)
            (endsWithOperator_append _ hc) hcs
          rw [if_pos rfl, hstep, List.append_assoc (run ++ [last]), List.singleton_append]
      | false =>
          -- The run is over, and the next one begins with the content.
          have hstep := ih [] c c (List.isChain_singleton c) (merged_singleton c) rfl hcs
          rw [if_neg Bool.false_ne_true, hstep, Passage.items, Passage.statements, Passage.items,
            Passage.statements, List.splitBy_append_cons cs fun x hx => ?_,
            List.splitBy_of_isChain
              (List.append_ne_nil_of_right_ne_nil _ (List.cons_ne_nil _ _)) hrun]
          · simp only [List.filterMap_cons, hmerged, List.map_cons, List.nil_append,
              List.cons_append]
          · rw [List.getLast?_concat, Option.mem_some_iff] at hx
            rw [← hx]
            exact hjoins

/-- The contents of a passage become its statements. -/
theorem group_passage {place : Section} {cs : List Numbered} {rest : List Piece}
    {tail : List Item} (hcs : ∀ c ∈ cs, c.text ≠ [])
    (hrest : ∀ pending, group place pending rest = collected place pending ++ tail) :
    group place none (cs.map .content ++ rest) = Passage.items ⟨place, cs⟩ ++ tail := by
  cases cs with
  | nil => exact hrest none
  | cons c cs =>
      exact group_run [] c c (List.isChain_singleton c) (merged_singleton c) rfl
        (fun d hd => hcs d (List.mem_cons_of_mem _ hd)) hrest

/-- The statements of each passage are dealt with when it ends. -/
theorem group_passages {place : Section} {opening : List Numbered} {passages : List Passage}
    (hopening : ∀ c ∈ opening, c.text ≠ [])
    (hpassages : ∀ p ∈ passages, ∀ c ∈ p.contents, c.text ≠ []) :
    group place none (opening.map .content ++ passages.flatMap Passage.pieces)
      = Passage.items ⟨place, opening⟩
        ++ passages.flatMap fun p => .opening p.place :: p.items := by
  induction passages generalizing place opening with
  | nil => exact group_passage hopening fun pending => (List.append_nil _).symm
  | cons p passages ih =>
      have hnext := @ih p.place p.contents (hpassages p (List.mem_cons_self ..))
        fun q hq => hpassages q (List.mem_cons_of_mem _ hq)
      refine group_passage hopening fun pending => ?_
      show group place pending (.header p.place :: (p.contents.map .content
        ++ passages.flatMap Passage.pieces)) = _
      rw [group, hnext]
      rfl

/-- The items of a text are the statements before the first header, and
the header and the statements of each passage. -/
theorem items_eq (text : List Char) :
    items text = Passage.items ⟨.preamble, (layout ((contents text).flatMap piecesOf)).1⟩
      ++ (layout ((contents text).flatMap piecesOf)).2.flatMap
        fun p => .opening p.place :: p.items := by
  have hne : ∀ c, .content c ∈ (contents text).flatMap piecesOf → c.text ≠ [] :=
    fun _ => text_ne_nil_of_mem_pieces
  rw [items]
  generalize (contents text).flatMap piecesOf = pieces at hne ⊢
  -- Only where the pieces are grouped their layout is wanted.
  rw [layout_eq pieces] at hne
  conv_lhs => rw [layout_eq pieces]
  refine group_passages (fun c hc => hne c ?_) fun p hp c hc => hne c ?_
  · exact List.mem_append_left _ (List.mem_map_of_mem hc)
  · exact List.mem_append_right _ (List.mem_flatMap.mpr
      ⟨p, hp, List.mem_cons_of_mem _ (List.mem_map_of_mem hc)⟩)

/-! ### Contents that stand alone -/

/-- Where no content continues another one, each of them is a statement. -/
theorem Passage.statements_eq_contents {p : Passage}
    (h : ∀ before next, continues p.place before next = false) : p.statements = p.contents := by
  rw [Passage.statements]
  simp only [h]
  induction p.contents with
  | nil => rfl
  | cons c cs ih =>
      cases cs with
      | nil => rw [List.splitBy_of_isChain (List.cons_ne_nil _ _) (List.isChain_singleton c),
          List.filterMap_cons, merged_singleton, List.filterMap_nil]
      | cons d cs =>
          rw [show c :: d :: cs = [c] ++ d :: cs from rfl,
            List.splitBy_append_cons cs fun _ _ => rfl, List.filterMap_append, ih,
            List.splitBy_of_isChain (List.cons_ne_nil _ _) (List.isChain_singleton c),
            List.filterMap_cons, merged_singleton, List.filterMap_nil]

end LinearProgram.LpText
