import LinearProgram.Proofs.LpText.Rejected.Lines
import LinearProgram.Proofs.LpText.Rejected.Readings

/-!
# `LinearProgram.Proofs.LpText.Rejected.Drafts`: two drafts

Two texts with the same items, up to the numbers of their lines, are
read on from drafts of which the second mirrors the first. What is read
then is a copy of one another, item by item.

* `Draft.Mirrors` compares the drafts. Problems are left out: a word can
  be refused in one of them alone, because it is binary there.
* `Draft.Mirrors.take` is the step, over the sections, and
  `Draft.Mirrors.foldl_take` the run.
-/

set_option autoImplicit false

namespace LinearProgram.LpText

open Symbols (Mirrors Later)

variable {forced forced' : Option String}

/-! ### Drafts -/

/-- Whether an objective that was read in one state is a copy of one that
was read in the other. -/
def IsMirroredObjective (s t : Symbols) : Option Objective → Option Objective → Prop
  | some o, some p => o.sense = p.sense ∧ IsMirroredTerm s t o.term p.term
  | none, none => True
  | _, _ => False

theorem IsMirroredObjective.later {s t s' t' : Symbols} {o p : Option Objective}
    (h : IsMirroredObjective s t o p) (hst : s.Mirrors forced t)
    (hlater : Later forced' s t s' t') : IsMirroredObjective s' t' o p := by
  cases o with
  | none =>
      cases p with
      | none => trivial
      | some p => cases h
  | some o =>
      cases p with
      | none => cases h
      | some p => exact ⟨h.1, h.2.later hst hlater⟩

/-- Whether what has been read in one state is a copy of what has been
read in the other. Problems are not compared. -/
structure Draft.Mirrors (forced : Option String) (d e : Draft) : Prop where
  symbols : d.symbols.Mirrors forced e.symbols
  objective : IsMirroredObjective d.symbols e.symbols d.objective e.objective
  constraints : List.Forall₂ (IsMirroredConstraint d.symbols e.symbols) d.constraints e.constraints

namespace Draft.Mirrors

variable {d e : Draft}

/-- Reading on does not change what has been read. -/
theorem later (h : Mirrors forced d e) {s t : Symbols}
    (hlater : Later forced' d.symbols e.symbols s t) :
    Mirrors forced' { d with symbols := s } { e with symbols := t } :=
  ⟨hlater.mirrors, h.objective.later h.symbols hlater,
    h.constraints.imp fun _ _ hc => hc.later h.symbols hlater⟩

theorem report (h : Mirrors forced d e) (line line' : Nat) (error error' : ReadError Float) :
    Mirrors forced (d.report line error) (e.report line' error') :=
  ⟨h.symbols, h.objective, h.constraints⟩

/-- Something is read in both drafts, and kept in both or in neither. -/
theorem attempt (h : Mirrors forced d e) {α β : Type} {R : Symbols → Symbols → α → β → Prop}
    {reading : Reading Float α} {reading' : Reading Float β} {keep : Draft → α → Draft}
    {keep' : Draft → β → Draft} (line line' : Nat)
    (htally : Tally forced d.symbols e.symbols R (reading d.symbols) (reading' e.symbols))
    (hkeep : ∀ {d' e' a b}, Mirrors forced d' e' → R d'.symbols e'.symbols a b →
      Mirrors forced (keep d' a) (keep' e' b)) :
    Mirrors forced (d.attempt line reading keep) (e.attempt line' reading' keep') := by
  rw [Draft.attempt, Draft.attempt]
  cases hleft : reading d.symbols
  cases hright : reading' e.symbols
  rw [hleft, hright] at htally
  cases htally with
  | ok hlater hR => exact hkeep (h.later hlater) hR
  | error hlater => exact (h.later hlater).report _ _ _ _

theorem addObjective (h : Mirrors forced d e) {t u : Term Float}
    (htu : IsMirroredTerm d.symbols e.symbols t u) (sense : Sense) :
    Mirrors forced (d.addObjective sense t) (e.addObjective sense u) := by
  refine ⟨h.symbols, ?_, h.constraints⟩
  have hobjective := h.objective
  show IsMirroredObjective d.symbols e.symbols _ _
  unfold Draft.addObjective
  cases hd : d.objective <;> cases he : e.objective <;> rw [hd, he] at hobjective
  · exact ⟨rfl, htu⟩
  · cases hobjective
  · cases hobjective
  · exact ⟨hobjective.1, hobjective.2.add htu⟩

theorem addConstraint (h : Mirrors forced d e) {c c' : Constraint Float}
    (hc : IsMirroredConstraint d.symbols e.symbols c c') :
    Mirrors forced { d with constraints := d.constraints ++ [c] }
      { e with constraints := e.constraints ++ [c'] } :=
  ⟨h.symbols, h.objective, List.rel_append h.constraints (.cons hc .nil)⟩

theorem openSection (h : Mirrors forced d e) (opened : Section) :
    Mirrors forced (d.openSection opened) (e.openSection opened) := by
  cases opened with
  | objective sense =>
      refine ⟨h.symbols, ?_, h.constraints⟩
      have hobjective := h.objective
      show IsMirroredObjective d.symbols e.symbols (some _) (some _)
      cases hd : d.objective <;> cases he : e.objective <;> rw [hd, he] at hobjective
      · exact ⟨rfl, isMirroredTerm_ofConstant _ _ 0⟩
      · cases hobjective
      · cases hobjective
      · exact hobjective
  | _ => exact h

end Draft.Mirrors

/-! ### Items -/

/-- Declaring a word changes only what is said of names. -/
theorem Draft.declareWord_eq_of_symbols (kind : Kind) (line : Nat) (d : Draft) (word : List Char) :
    d.declareWord kind line word
      = { d with
          symbols := (answerWord kind line word d.symbols).2
          problems := (d.declareWord kind line word).problems } := by
  rw [declareWord_eq, step, answer]
  have hyields := answer_yields d.symbols (.word kind line word)
  rw [answer] at hyields
  cases hanswer : (answerWord kind line word d.symbols).1 with
  | declaration name kind' line' => simp [record, Outcome.toObjective, Outcome.constraint?]
  | problem p => simp [record, Outcome.toObjective, Outcome.constraint?]
  | _ =>
      rw [hanswer] at hyields
      cases hyields

namespace Draft.Mirrors

variable {d e : Draft}

theorem declareWord (h : Mirrors forced d e) (kind : Kind) (line line' : Nat) (word : List Char) :
    Mirrors forced (d.declareWord kind line word) (e.declareWord kind line' word) := by
  rw [declareWord_eq_of_symbols, declareWord_eq_of_symbols kind line' e]
  have hlater := h.later (h.symbols.answerWord kind line line' word)
  exact ⟨hlater.symbols, hlater.objective, hlater.constraints⟩

/-- The words of a statement are declared, one after another. -/
theorem declareWords (h : Mirrors forced d e) (kind : Kind) {st st' : Numbered}
    (htext : st.text = st'.text) :
    Mirrors forced (d.declareWords kind st) (e.declareWords kind st') := by
  unfold Draft.declareWords
  rw [htext]
  generalize Text.words st'.text = words
  induction words generalizing d e with
  | nil => exact h
  | cons word words ih => exact ih (h.declareWord kind st.line st'.line word)

/-- A statement of the same section with the same text is read in both
drafts. -/
theorem takeStatement (h : Mirrors forced d e) (place : Section) {st st' : Numbered}
    (htext : st.text = st'.text) :
    Mirrors forced (d.takeStatement place st) (e.takeStatement place st') := by
  cases place with
  | preamble => exact h.report _ _ _ _
  | closed => exact h.report _ _ _ _
  | objective sense =>
      refine h.attempt st.line st'.line ?_ fun hde htu => hde.addObjective htu sense
      rw [htext]
      exact tally_objectiveTerm h.symbols st'.text
  | constraints =>
      exact h.attempt st.line st'.line (tally_constraintStatement h.symbols htext)
        fun hde hc => hde.addConstraint hc
  | bounds =>
      exact h.attempt st.line st'.line (tally_boundStatement h.symbols htext) fun hde _ => hde
  | binary => exact h.declareWords .binary htext
  | general => exact h.declareWords .integer htext

/-- The same item is dealt with in both drafts, maybe on other lines. -/
theorem take (h : Mirrors forced d e) {item item' : Item}
    (hitem : item.unnumbered = item'.unnumbered) : Mirrors forced (d.take item) (e.take item') := by
  cases item with
  | opening opened =>
      cases item' with
      | opening opened' =>
          cases hitem
          exact h.openSection opened
      | statement place st => cases hitem
  | statement place st =>
      cases item' with
      | opening opened => cases hitem
      | statement place' st' =>
          injection hitem with hplace hst
          rw [hplace]
          exact h.takeStatement place' (Numbered.mk.inj hst).2

/-- The same items are dealt with in both drafts. -/
theorem foldl_take {its its' : List Item}
    (hitems : its.map Item.unnumbered = its'.map Item.unnumbered) (h : Mirrors forced d e) :
    Mirrors forced (its.foldl Draft.take d) (its'.foldl Draft.take e) := by
  induction its generalizing its' d e with
  | nil =>
      rw [List.map_nil, eq_comm, List.map_eq_nil_iff] at hitems
      rw [hitems]
      exact h
  | cons item its ih =>
      obtain ⟨item', rest, rfl, hitem, hrest⟩ := List.map_eq_cons_iff.mp hitems.symm
      rw [List.foldl_cons, List.foldl_cons]
      exact ih hrest.symm (h.take hitem.symm)

end Draft.Mirrors

/-- Nothing has been read in both drafts. -/
theorem Draft.mirrors_start (registry : Registry) :
    Mirrors none (start registry) (start registry) :=
  ⟨.refl (Symbols.isSound_start registry), trivial, .nil⟩

end LinearProgram.LpText
