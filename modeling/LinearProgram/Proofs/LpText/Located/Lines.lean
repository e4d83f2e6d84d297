import LinearProgram.Proofs.LpText.Accounted.Outcomes
import LinearProgram.Proofs.LpText.Rejected.Statements

/-!
# `LinearProgram.Proofs.LpText.Located.Lines`: the lines of problems

A statement is judged when it is complete, which is lines after it has
begun, and a problem with it is put down to the line where it began.
Yet the lines of the problems never decrease: statements are judged in
the order in which they begin.

* `HasContent` says that a line is there and not blank.
* `sublist_lines_items`: the statements of a text begin on different
  lines, in their order.
* `pairwise_lines_parts`, `hasContent_of_part`: the parts of a text stand
  on such lines as well, and there may be several on one.
* `pairwise_lines_answers`, `hasContent_of_answers`: so do the problems
  with them.
-/

set_option autoImplicit false

namespace LinearProgram.LpText

/-! ### Lines -/

/-- Whether a text has a line of this number, and there is something on
it besides blanks and a comment. Lines are numbered from one. -/
structure HasContent (text : String) (n : Nat) : Prop where
  first : 1 ≤ n
  last : n ≤ (Text.lines text.toList).length
  content : ∃ line, (Text.lines text.toList)[n - 1]? = some line ∧ stripped line ≠ []

theorem exists_line_of_mem_numberedFrom {first : Nat} {ls : List (List Char)} {c : Numbered}
    (h : c ∈ numberedFrom first ls) :
    ∃ i line, c.line = first + i ∧ ls[i]? = some line ∧ stripped line ≠ [] := by
  induction ls generalizing first with
  | nil => cases h
  | cons l ls ih =>
      have hlater : c ∈ numberedFrom (first + 1) ls →
          ∃ i line, c.line = first + i ∧ (l :: ls)[i]? = some line ∧ stripped line ≠ [] := by
        intro h
        obtain ⟨i, line, hline, hget, hne⟩ := ih h
        exact ⟨i + 1, line, by omega, hget, hne⟩
      rw [numberedFrom] at h
      split at h
      · exact hlater h
      · rename_i hstripped
        rcases List.mem_cons.mp h with rfl | h
        · exact ⟨0, l, rfl, rfl, hstripped⟩
        · exact hlater h

theorem hasContent_of_mem_contents {text : String} {c : Numbered}
    (h : c ∈ contents text.toList) : HasContent text c.line := by
  obtain ⟨i, line, hline, hget, hne⟩ := exists_line_of_mem_numberedFrom h
  obtain ⟨hi, _⟩ := List.getElem?_eq_some_iff.mp hget
  refine ⟨by omega, by omega, line, ?_, hne⟩
  rw [hline, Nat.add_sub_cancel_left]
  exact hget

/-! ### Statements -/

/-- The line where a statement begins. -/
def Item.line? : Item → Option Nat
  | .opening _ => none
  | .statement _ s => some s.line

/-- A statement begins on the line of a content, which is the pending one
or comes later. -/
theorem sublist_lines_group (place : Section) (pending : Option Numbered) (pieces : List Piece) :
    ((group place pending pieces).filterMap Item.line?).Sublist
      ((pending.map Numbered.line).toList ++ pieces.filterMap Piece.line?) := by
  have hcollected : ∀ place pending,
      (collected place pending).filterMap Item.line? = (pending.map Numbered.line).toList := by
    intro place pending
    cases pending <;> rfl
  induction pieces generalizing place pending with
  | nil =>
      rw [group, hcollected]
      exact List.sublist_append_left _ _
  | cons piece pieces ih =>
      cases piece with
      | header opened =>
          rw [group, List.filterMap_append, hcollected]
          exact .append (.refl _) (ih opened none)
      | content next =>
          cases pending with
          | none => exact ih place (some next)
          | some before =>
              rw [group]
              split
              · -- The line of a content that continues a statement is left out.
                exact (ih place (some _)).trans ((List.sublist_cons_self ..).cons_cons before.line)
              · exact (ih place (some next)).cons_cons before.line

theorem sublist_lines_items (text : String) :
    ((items text.toList).filterMap Item.line?).Sublist
      ((contents text.toList).map Numbered.line) :=
  (sublist_lines_group .preamble none _).trans (sublist_lines_pieces _)

/-- Every statement begins behind the line where the one before it does. -/
theorem pairwise_lines_items (text : String) :
    ((items text.toList).filterMap Item.line?).Pairwise (· < ·) :=
  .sublist ((sublist_lines_items text).trans (sublist_lines_numberedFrom 1 _))
    List.pairwise_lt_range'

/-! ### Parts -/

/-- The line on which a part stands. -/
def Part.line? : Part → Option Nat
  | .header _ => none
  | .objective _ s => some s.line
  | .constraint s => some s.line
  | .bounds s => some s.line
  | .word _ line _ => some line
  | .outside c => some c.line
  | .afterEnd c => some c.line

/-- The parts of a statement stand on its line. -/
theorem line?_of_mem_parts {item : Item} {part : Part} (h : part ∈ item.parts) :
    part.line? = item.line? := by
  have hword : ∀ {kind : Kind} {s : Numbered}, part ∈ wordParts kind s →
      part.line? = some s.line := by
    intro kind s h
    obtain ⟨w, _, rfl⟩ := List.mem_map.mp h
    rfl
  cases item with
  | opening opened =>
      rw [List.mem_singleton.mp h]
      rfl
  | statement place s =>
      cases place with
      | binary => exact hword h
      | general => exact hword h
      | _ =>
          rw [List.mem_singleton.mp h]
          rfl

theorem mem_lines_parts {item : Item} {n : Nat} (h : n ∈ item.parts.filterMap Part.line?) :
    item.line? = some n := by
  obtain ⟨part, hpart, hline⟩ := List.mem_filterMap.mp h
  rw [← line?_of_mem_parts hpart, hline]

/-- No part stands on an earlier line than one before it. -/
theorem pairwise_lines_parts (text : String) :
    ((partsOf text).filterMap Part.line?).Pairwise (· ≤ ·) := by
  rw [← flatMap_items_eq, List.filterMap_flatMap, List.pairwise_flatMap]
  refine ⟨fun item _ => List.pairwise_of_forall_mem_list fun m hm n hn => ?_, ?_⟩
  · have hsame : some m = some n := (mem_lines_parts hm).symm.trans (mem_lines_parts hn)
    exact (Option.some.inj hsame).le
  · have hitems := List.pairwise_filterMap.mp (pairwise_lines_items text)
    exact hitems.imp fun hlt m hm n hn =>
      (hlt m (mem_lines_parts hm) n (mem_lines_parts hn)).le

/-- The line of a part is not blank. -/
theorem hasContent_of_part {text : String} {part : Part} {n : Nat} (hpart : part ∈ partsOf text)
    (hline : part.line? = some n) : HasContent text n := by
  rw [← flatMap_items_eq] at hpart
  obtain ⟨item, hitem, hpart⟩ := List.mem_flatMap.mp hpart
  rw [line?_of_mem_parts hpart] at hline
  have hmem : n ∈ (contents text.toList).map Numbered.line :=
    (sublist_lines_items text).subset (List.mem_filterMap.mpr ⟨item, hitem, hline⟩)
  obtain ⟨c, hc, rfl⟩ := List.mem_map.mp hmem
  exact hasContent_of_mem_contents hc

/-! ### Problems -/

/-- The problem with a part is on its line. -/
theorem line?_of_yields {part : Part} {p : Problem} (h : part.Yields (.problem p)) :
    part.line? = some p.line := by
  cases part with
  | header opened => exact h.elim
  | outside c => exact congrArg (fun q => some q.line) (Eq.symm h)
  | afterEnd c => exact congrArg (fun q => some q.line) (Eq.symm h)
  | _ => exact congrArg some (Eq.symm h)

theorem sublist_lines_problems {parts : List Part} {outcomes : List Outcome}
    (h : List.Forall₂ Part.Yields parts outcomes) :
    ((outcomes.filterMap Outcome.problem?).map Problem.line).Sublist
      (parts.filterMap Part.line?) := by
  induction h with
  | nil => exact .slnil
  | @cons part o parts outcomes hyields _ ih =>
      cases o with
      | problem p =>
          rw [List.filterMap_cons_some (line?_of_yields hyields)]
          exact ih.cons_cons p.line
      | _ =>
          refine ih.trans ?_
          rw [← List.singleton_append, List.filterMap_append]
          exact List.sublist_append_right _ _

/-- The lines of the problems with the parts of a text never decrease. -/
theorem pairwise_lines_answers (s : Symbols) (text : String) :
    (((answers s (partsOf text)).1.filterMap Outcome.problem?).map Problem.line).Pairwise (· ≤ ·) :=
  (pairwise_lines_parts text).sublist (sublist_lines_problems (answers_yield s _))

theorem hasContent_of_answers {s : Symbols} {text : String} {p : Problem}
    (hp : p ∈ (answers s (partsOf text)).1.filterMap Outcome.problem?) :
    HasContent text p.line := by
  obtain ⟨part, hpart, hline⟩ := List.mem_filterMap.mp
    ((sublist_lines_problems (answers_yield s _)).subset (List.mem_map_of_mem hp))
  exact hasContent_of_part hpart hline

end LinearProgram.LpText
