import LinearProgram.Proofs.Solution.Vector

/-!
# `LinearProgram.Proofs.Solution.Torn`: what is read of any text

Any text may be read as a solution vector, also one that is the
beginning of a vector and nothing more. Two parts of a line count: what
a comment says of the objective, and the value behind a name.

* `takeLine_cases`: a line is refused if one of its parts is no number,
  and `ofText_cases` says the same of a text. The objective is the last
  one that is stated, and zero where none is.
* `States` and `Marks` tell a text that states an objective from one that
  only sets out to do so. For a text that is read they are the same
  (`states_iff_marks`).
* `ofText_torn`: the beginning of a vector sets out to state an objective
  as soon as it has the words in front of the number. One that is shorter
  is read like an empty text, from which nothing is missed.
-/

set_option autoImplicit false

namespace LinearProgram

open Text (spaced IsWord IsLine)

namespace Text

/-- The blanks behind a word are behind all that comes before it. -/
theorem trimRight_append {cs w : List Char} (h : IsWord w) (rest : List Char) :
    ∃ rest', trimRight (cs ++ w ++ rest) = cs ++ w ++ rest' := by
  have hword := @trimRight_of_isWord cs _ h
  unfold trimRight at hword ⊢
  rw [List.reverse_append, List.dropWhile_append]
  split
  · exact ⟨[], hword.trans (List.append_nil _).symm⟩
  · exact ⟨(rest.reverse.dropWhile isBlank).reverse, by
      rw [List.reverse_append, List.reverse_reverse]⟩

/-- A text that does not end its line begins the first line. -/
theorem exists_lines_append {l : List Char} (hl : IsLine l) (hne : l ≠ []) (rest : List Char) :
    ∃ line others, lines (l ++ rest) = (l ++ line) :: others := by
  induction l with
  | nil => exact absurd rfl hne
  | cons c l ih =>
      obtain ⟨hc, hl⟩ := List.forall_mem_cons.mp hl
      have hstep : ∀ line others, lines (l ++ rest) = line :: others →
          lines (c :: (l ++ rest)) = (c :: line) :: others := by
        intro line others h
        rw [lines, h]
        · intro rest' heq
          exact absurd heq hc.2
        · exact hc.1
      cases l with
      | nil =>
          cases hrest : lines rest with
          | nil =>
              have hlast : lines (c :: rest) = [[c]] := by
                rw [lines, hrest]
                · intro rest' heq
                  exact absurd heq hc.2
                · exact hc.1
              exact ⟨[], [], hlast⟩
          | cons line others => exact ⟨line, others, hstep line others hrest⟩
      | cons d l =>
          obtain ⟨line, others, hlines⟩ := ih hl (List.cons_ne_nil d l)
          exact ⟨line, others, hstep _ _ hlines⟩

end Text

namespace SolutionFile

open Decimal (plain)
open Solution (objectiveText)

/-! ### The parts of a line -/

/-- What a comment says of the objective, if it is about the objective. -/
def objectivePart? (line : List Char) : Option (List Char) :=
  (Text.splitAt '#' line).2.bind fun c => Text.stripHead? objectiveMark (Text.trim c)

/-- A name, and what stands where its value should. -/
def valuePart? (line : List Char) : Option (List Char × List Char) :=
  match Text.words (Text.splitAt '#' line).1 with
  | name :: value :: _ => some (name, value)
  | _ => none

/-- Whether there are numbers where there should be. -/
structure IsReadableLine (line : List Char) : Prop where
  objective : ∀ part, objectivePart? line = some part → ∃ x, number part = .ok x
  value : ∀ name part, valuePart? line = some (name, part) → ∃ x, number part = .ok x

/-- The objective that a line states. -/
def statedObjective? (line : List Char) : Option Float :=
  (objectivePart? line).bind fun part => (number part).toOption

theorem takeComment_eq (f : SolutionFile) (line : List Char) :
    f.takeComment (Text.splitAt '#' line).2
      = match objectivePart? line with
        | some part => (number part).map fun x => { f with objective := x }
        | none => .ok f := rfl

theorem takeContent_eq (f : SolutionFile) (line : List Char) :
    f.takeContent (Text.splitAt '#' line).1
      = match valuePart? line with
        | some (name, part) =>
          (number part).map fun x => { f with values := f.values.insert (String.ofList name) x }
        | none => .ok f := by
  unfold takeContent valuePart?
  rcases Text.words (Text.splitAt '#' line).1 with _ | ⟨name, _ | ⟨value, others⟩⟩ <;> rfl

theorem takeComment_cases (f : SolutionFile) (line : List Char) :
    (∃ part e, objectivePart? line = some part ∧ number part = .error e
        ∧ f.takeComment (Text.splitAt '#' line).2 = .error e)
      ∨ (∀ part, objectivePart? line = some part → ∃ x, number part = .ok x)
        ∧ f.takeComment (Text.splitAt '#' line).2
          = .ok { f with objective := (statedObjective? line).getD f.objective } := by
  rw [takeComment_eq, statedObjective?]
  cases objectivePart? line with
  | none => exact .inr ⟨nofun, rfl⟩
  | some part =>
      simp only [Option.bind_some]
      cases hnumber : number part with
      | error e => exact .inl ⟨part, e, rfl, hnumber, rfl⟩
      | ok x =>
          refine .inr ⟨?_, rfl⟩
          rintro _ ⟨⟩
          exact ⟨x, hnumber⟩

theorem takeContent_cases (f : SolutionFile) (line : List Char) :
    (∃ name part e, valuePart? line = some (name, part) ∧ number part = .error e
        ∧ f.takeContent (Text.splitAt '#' line).1 = .error e)
      ∨ (∀ name part, valuePart? line = some (name, part) → ∃ x, number part = .ok x)
        ∧ ∃ values, f.takeContent (Text.splitAt '#' line).1 = .ok { f with values } := by
  rw [takeContent_eq]
  cases valuePart? line with
  | none => exact .inr ⟨nofun, f.values, rfl⟩
  | some p =>
      obtain ⟨name, part⟩ := p
      simp only
      cases hnumber : number part with
      | error e => exact .inl ⟨name, part, e, rfl, hnumber, rfl⟩
      | ok x =>
          refine .inr ⟨?_, _, rfl⟩
          rintro _ _ ⟨⟩
          exact ⟨x, hnumber⟩

/-- A line is refused, or it is readable and may state an objective. -/
theorem takeLine_cases (f : SolutionFile) (line : List Char) :
    ¬ IsReadableLine line ∧ (∃ e, f.takeLine line = .error e)
      ∨ IsReadableLine line ∧ ∃ values, f.takeLine line
        = .ok ⟨(statedObjective? line).getD f.objective, values⟩ := by
  rcases takeComment_cases f line with ⟨part, e, hpart, hnumber, heq⟩ | ⟨hobjective, heq⟩
  · refine .inl ⟨fun h => ?_, e, ?_⟩
    · obtain ⟨x, hx⟩ := h.objective part hpart
      rw [hnumber] at hx
      cases hx
    · simp only [takeLine, heq]
  · rcases takeContent_cases { f with objective := (statedObjective? line).getD f.objective } line
      with ⟨name, part, e, hpart, hnumber, hcontent⟩ | ⟨hvalue, values, hcontent⟩
    · refine .inl ⟨fun h => ?_, e, ?_⟩
      · obtain ⟨x, hx⟩ := h.value name part hpart
        rw [hnumber] at hx
        cases hx
      · simp only [takeLine, heq, hcontent]
    · refine .inr ⟨⟨hobjective, hvalue⟩, values, ?_⟩
      simp only [takeLine, heq, hcontent]

/-! ### Whole texts -/

/-- Whether all lines are readable. -/
def IsReadable (text : String) : Prop := ∀ line ∈ Text.lines text.toList, IsReadableLine line

/-- Whether a text has the words that announce an objective. -/
def Marks (text : String) : Prop :=
  ∃ line ∈ Text.lines text.toList, (objectivePart? line).isSome = true

instance (text : String) : Decidable (Marks text) :=
  inferInstanceAs (Decidable (∃ line ∈ Text.lines text.toList, _))

/-- Whether a text announces an objective and gives a number for it. -/
def States (text : String) : Prop :=
  ∃ line ∈ Text.lines text.toList, ∃ x, statedObjective? line = some x

theorem foldlM_takeLine_cases (lines : List (List Char)) (f : SolutionFile) :
    ¬ (∀ line ∈ lines, IsReadableLine line) ∧ (∃ e, lines.foldlM takeLine f = .error e)
      ∨ (∀ line ∈ lines, IsReadableLine line) ∧ ∃ values, lines.foldlM takeLine f
        = .ok ⟨(lines.filterMap statedObjective?).getLastD f.objective, values⟩ := by
  induction lines generalizing f with
  | nil => exact .inr ⟨List.forall_mem_nil _, f.values, rfl⟩
  | cons line lines ih =>
      rw [List.foldlM_cons, List.forall_mem_cons]
      rcases takeLine_cases f line with ⟨hline, e, heq⟩ | ⟨hline, values, heq⟩
      · exact .inl ⟨fun h => hline h.1, e, by rw [heq]; rfl⟩
      · rcases ih ⟨(statedObjective? line).getD f.objective, values⟩ with
          ⟨hlines, e, hrest⟩ | ⟨hlines, values', hrest⟩
        · exact .inl ⟨fun h => hlines h.2, e, by rw [heq]; exact hrest⟩
        · refine .inr ⟨⟨hline, hlines⟩, values', ?_⟩
          -- The objective of this line is the last one unless a later line states another.
          have hlast : ((line :: lines).filterMap statedObjective?).getLastD f.objective
              = (lines.filterMap statedObjective?).getLastD
                ((statedObjective? line).getD f.objective) := by
            rw [List.filterMap_cons]
            cases statedObjective? line with
            | none => rfl
            | some x => rw [List.getLastD_cons]; rfl
          rw [hlast, heq]
          exact hrest

/-- A text is refused, or all of it is readable and the objective is the
last one that it states. -/
theorem ofText_cases (text : String) :
    ¬ IsReadable text ∧ (∃ e, ofText text = .error e)
      ∨ IsReadable text ∧ ∃ values, ofText text
        = .ok ⟨((Text.lines text.toList).filterMap statedObjective?).getLastD 0, values⟩ :=
  foldlM_takeLine_cases _ empty

/-- A text that is read states each objective that it announces. -/
theorem states_iff_marks {text : String} (h : IsReadable text) : States text ↔ Marks text := by
  constructor
  · rintro ⟨line, hline, x, hx⟩
    obtain ⟨part, hpart, _⟩ := Option.bind_eq_some_iff.mp hx
    exact ⟨line, hline, by rw [hpart]; rfl⟩
  · rintro ⟨line, hline, hsome⟩
    obtain ⟨part, hpart⟩ := Option.isSome_iff_exists.mp hsome
    obtain ⟨x, hx⟩ := (h line hline).objective part hpart
    refine ⟨line, hline, x, ?_⟩
    rw [statedObjective?, hpart, Option.bind_some, hx]
    rfl

/-- Where no objective is announced none is stated, and it is zero. -/
theorem statedObjectives_of_not_marks {text : String} (h : ¬ Marks text) :
    (Text.lines text.toList).filterMap statedObjective? = [] := by
  refine List.filterMap_eq_nil_iff.mpr fun line hline => ?_
  cases hpart : objectivePart? line with
  | none => rw [statedObjective?, hpart]; rfl
  | some part => exact absurd ⟨line, hline, by rw [hpart]; rfl⟩ h

/-! ### Beginnings of a vector -/

/-- The words in front of the objective. -/
def heading : List Char := '#' :: ' ' :: objectiveMark

theorem heading_begins (s : Solution) : heading <+: (s.vector true).toList := by
  rw [Solution.vector_toList]
  show heading <+: (objectiveText s.objective ++ ['\n']) ++ _
  refine (List.IsPrefix.trans ?_ (List.prefix_append ..)).trans (List.prefix_append ..)
  exact ⟨spaced [(plain s.objective).toList], rfl⟩

/-- A line that says nothing changes nothing. -/
theorem takeLine_of_silent {f : SolutionFile} {line : List Char}
    (hobjective : objectivePart? line = none) (hvalue : valuePart? line = none) :
    f.takeLine line = .ok f := by
  have hcomment := f.takeComment_eq line
  have hcontent := f.takeContent_eq line
  rw [hobjective] at hcomment
  rw [hvalue] at hcontent
  simp only [takeLine, hcomment, hcontent]

/-- As long as the words in front of the objective are not complete, they
say nothing. -/
theorem silent_take (n : Nat) (hn : n < heading.length) :
    ∀ line ∈ Text.lines (heading.take n),
      objectivePart? line = none ∧ valuePart? line = none := by
  revert n
  decide

theorem foldlM_takeLine_of_silent {lines : List (List Char)} {f : SolutionFile}
    (h : ∀ line ∈ lines, objectivePart? line = none ∧ valuePart? line = none) :
    lines.foldlM takeLine f = .ok f := by
  induction lines with
  | nil => rfl
  | cons line lines ih =>
      obtain ⟨hline, hlines⟩ := List.forall_mem_cons.mp h
      rw [List.foldlM_cons, takeLine_of_silent hline.1 hline.2]
      exact ih hlines

/-- A comment that begins with the words announces an objective, whatever
follows them. -/
theorem isSome_objectivePart? (rest : List Char) :
    (objectivePart? (heading ++ rest)).isSome = true := by
  have hsplit : Text.splitAt '#' (heading ++ rest) = ([], some (' ' :: (objectiveMark ++ rest))) :=
    @Text.splitAt_append_cons '#' [] List.not_mem_nil _
  have hleft : Text.trimLeft (' ' :: (objectiveMark ++ rest)) = objectiveMark ++ rest := by
    rw [Text.trimLeft_of_isBlank Text.isBlank_space]
    exact Text.trimLeft_of_isWord (w := "objective".toList) (by decide) _
  obtain ⟨rest', hright⟩ :=
    @Text.trimRight_append "objective ".toList "value".toList (by decide) rest
  rw [objectivePart?, hsplit, Option.bind_some, Text.trim, hleft]
  have hmark : objectiveMark = "objective ".toList ++ "value".toList := by decide
  rw [hmark, hright, Text.stripHead?_eq_some_iff.mpr rfl]
  rfl

/-- What is read of the beginning of a vector. It announces an objective
if the words in front of it are complete; otherwise it is read like an
empty text. -/
theorem ofText_torn {s : Solution} {text : String} (h : text.toList <+: (s.vector true).toList) :
    (Marks text ↔ heading.length ≤ text.toList.length)
      ∧ (¬ Marks text → ofText text = .ok empty) := by
  by_cases hlength : heading.length ≤ text.toList.length
  · obtain ⟨rest, hrest⟩ := List.prefix_of_prefix_length_le (heading_begins s) h hlength
    have hmarks : Marks text := by
      obtain ⟨line, others, hlines⟩ := Text.exists_lines_append (l := heading) (by decide)
        (by decide) rest
      refine ⟨heading ++ line, ?_, isSome_objectivePart? line⟩
      rw [← hrest, hlines]
      exact List.mem_cons_self ..
    exact ⟨⟨fun _ => hlength, fun _ => hmarks⟩, fun hnot => absurd hmarks hnot⟩
  · have hshort : text.toList.length < heading.length := Nat.lt_of_not_le hlength
    have htake := List.prefix_iff_eq_take.mp
      (List.prefix_of_prefix_length_le h (heading_begins s) (Nat.le_of_lt hshort))
    have hsilent : ∀ line ∈ Text.lines text.toList,
        objectivePart? line = none ∧ valuePart? line = none := by
      rw [htake]
      exact silent_take _ hshort
    refine ⟨⟨?_, fun hle => absurd hle hlength⟩, fun _ => foldlM_takeLine_of_silent hsilent⟩
    rintro ⟨line, hline, hsome⟩
    rw [(hsilent line hline).1] at hsome
    cases hsome

end SolutionFile

end LinearProgram
