import LinearProgram.Proofs.LpText.Accounted.Documents

/-!
# `LinearProgram.Proofs.LpText.Declared.Directions`: in which direction an objective is read

A text may have several sections for its objective, each of them with a
direction. What stands in them is added up. But there is one direction
in the end, and it is that of the first header, whether or not something
stands behind it.

* `contributions` are the terms of the objective and the directions under
  which they stand; `contributingDirections` are those of the sections
  that have contents, each of which is one statement.
* `objective_of_read`: the terms stand under the direction of the
  objective exactly if all of these sections have the direction of the
  first header. Directions are otherwise not looked at, so that a text in
  which they differ is read like one in which they do not
  (`mixedDirections_isMerged`).
-/

set_option autoImplicit false

namespace LinearProgram.LpText

deriving instance DecidableEq for Part

/-! ### Sections of the objective -/

/-- The direction of a section of the objective that has contents. -/
def Passage.direction? (p : Passage) : Option Sense :=
  match p.place with
  | .objective sense => if p.contents.isEmpty then none else some sense
  | _ => none

/-- The directions of all sections that contribute to the objective. -/
def contributingDirections (text : String) : List Sense :=
  (layout ((contents text.toList).flatMap piecesOf)).2.filterMap Passage.direction?

/-- The direction of a statement on the objective. -/
def Part.direction? : Part → Option Sense
  | .objective sense _ => some sense
  | _ => none

/-- The direction of a header of an objective. -/
def Part.opening? : Part → Option Sense
  | .header (.objective sense) => some sense
  | _ => none

/-- The direction of the first header of an objective. -/
def openingDirection (text : String) : Sense :=
  ((partsOf text).findSome? Part.opening?).getD .minimize

/-- Contents of an objective always continue one another. -/
theorem Passage.statements_objective {p : Passage} {sense : Sense}
    (h : p.place = .objective sense) : p.statements = (merged p.contents).toList := by
  obtain ⟨place, cs⟩ := p
  have h : place = .objective sense := h
  subst h
  rw [Passage.statements]
  cases cs with
  | nil => rfl
  | cons c cs =>
      have hchain : (c :: cs).IsChain fun before next =>
          continues (.objective sense) before.text next.text = true :=
        (List.pairwise_of_forall fun _ _ => rfl).isChain
      rw [List.splitBy_of_isChain (List.cons_ne_nil _ _) hchain]
      rfl

/-- A section with contents is one statement on the objective. -/
theorem Passage.filterMap_direction? (p : Passage) :
    p.parts.filterMap Part.direction? = p.direction?.toList := by
  have hmap : ∀ {f : Numbered → Part} {l : List Numbered}, (∀ s, (f s).direction? = none) →
      (l.map f).filterMap Part.direction? = [] := by
    intro f l hf
    rw [List.filterMap_map]
    exact List.filterMap_eq_nil_iff.mpr fun s _ => hf s
  have hwords : ∀ {kind : Kind} {l : List Numbered},
      (l.flatMap (wordParts kind)).filterMap Part.direction? = [] := by
    intro kind l
    refine List.filterMap_eq_nil_iff.mpr fun part hpart => ?_
    obtain ⟨c, _, hpart⟩ := List.mem_flatMap.mp hpart
    obtain ⟨w, _, rfl⟩ := List.mem_map.mp hpart
    rfl
  unfold Passage.parts Passage.direction?
  cases hplace : p.place with
  | objective sense =>
      rw [Passage.statements_objective hplace]
      cases p.contents <;> rfl
  | preamble => exact hmap fun _ => rfl
  | closed => exact hmap fun _ => rfl
  | constraints => exact hmap fun _ => rfl
  | bounds => exact hmap fun _ => rfl
  | binary => exact hwords
  | general => exact hwords

theorem filterMap_direction?_partsOf (text : String) :
    (partsOf text).filterMap Part.direction? = contributingDirections text := by
  have houtside : ∀ cs : List Numbered, (cs.map Part.outside).filterMap Part.direction? = [] := by
    intro cs
    rw [List.filterMap_map]
    exact List.filterMap_eq_nil_iff.mpr fun _ _ => rfl
  rw [partsOf, contributingDirections, List.filterMap_append, houtside, List.nil_append]
  induction (layout ((contents text.toList).flatMap piecesOf)).2 with
  | nil => rfl
  | cons p passages ih =>
      rw [List.flatMap_cons, List.filterMap_append, ih, List.filterMap_cons,
        show (Part.header p.place).direction? = none from rfl]
      dsimp only
      rw [Passage.filterMap_direction?, List.filterMap_cons]
      cases p.direction? <;> rfl

/-! ### Contributions -/

/-- A term of the objective, and the direction under which it stands. -/
def Outcome.contribution? : Outcome → Option (Sense × Term Float)
  | .term sense t => some (sense, t)
  | _ => none

/-- What a text contributes to the objective. -/
def contributions (registry : Registry) (text : String) : List (Sense × Term Float) :=
  (answers (.start registry) (partsOf text)).1.filterMap Outcome.contribution?

theorem map_snd_contributions (registry : Registry) (text : String) :
    (contributions registry text).map (·.2)
      = (answers (.start registry) (partsOf text)).1.filterMap Outcome.term? := by
  rw [contributions, List.map_filterMap]
  refine List.filterMap_congr fun o _ => ?_
  cases o <;> rfl

/-- Where nothing is reported, each statement on the objective is a term. -/
theorem directions_of_yields {parts : List Part} {outcomes : List Outcome}
    (h : List.Forall₂ Part.Yields parts outcomes)
    (hproblems : outcomes.filterMap Outcome.problem? = []) :
    (outcomes.filterMap Outcome.contribution?).map (·.1) = parts.filterMap Part.direction? := by
  have hone : ∀ {part : Part} {o : Outcome}, part.Yields o → o.problem? = none →
      o.contribution?.map (·.1) = part.direction? := by
    intro part o hyields hnone
    cases o with
    | problem p => cases hnone
    | term sense t =>
        cases part with
        | objective sense' st => exact congrArg some hyields
        | _ => exact hyields.elim
    | _ =>
        cases part with
        | objective sense' st => exact hyields.elim
        | _ => rfl
  induction h with
  | nil => rfl
  | cons hyields hrest ih =>
      rename_i part o parts outcomes
      obtain ⟨hnone, hrestNone⟩ : o.problem? = none ∧ outcomes.filterMap Outcome.problem? = [] := by
        have hall := List.filterMap_eq_nil_iff.mp hproblems
        exact ⟨hall o (List.mem_cons_self ..),
          List.filterMap_eq_nil_iff.mpr fun o ho => hall o (List.mem_cons_of_mem _ ho)⟩
      rw [List.filterMap_cons, List.filterMap_cons, ← hone hyields hnone, ← ih hrestNone]
      cases o.contribution? <;> rfl

theorem findSome?_direction? {parts : List Part} {outcomes : List Outcome}
    (h : List.Forall₂ Part.Yields parts outcomes) :
    outcomes.findSome? Outcome.direction? = parts.findSome? Part.opening? := by
  have hone : ∀ {part : Part} {o : Outcome}, part.Yields o → o.direction? = part.opening? := by
    intro part o hyields
    cases o with
    | opened place =>
        cases part with
        | header opened =>
            cases hyields
            cases place <;> rfl
        | _ => exact hyields.elim
    | _ =>
        cases part with
        | header opened => exact hyields.elim
        | _ => rfl
  induction h with
  | nil => rfl
  | cons hyields hrest ih => rw [List.findSome?_cons, List.findSome?_cons, hone hyields, ih]

/-- The objective has the direction of the first header, and all terms. -/
theorem objective_eq (registry : Registry) (text : String) :
    (read registry text).1.model.objective
      = ⟨openingDirection text, ((contributions registry text).map (·.2)).foldl (· + ·) 0⟩ := by
  obtain ⟨final, heq, _⟩ := read_spec registry text
  have hdraft : (Draft.ofText registry text).objective
      = (answers (.start registry) (partsOf text)).1.foldl Outcome.toObjective none := by
    rw [Draft.ofText_eq]
  rw [heq]
  dsimp only
  rw [hdraft, objective_answers (isHeaded_partsOf text), map_snd_contributions,
    findSome?_direction? (answers_yield (.start registry) (partsOf text)), openingDirection]

/-! ### Directions are not compared -/

/-- A section without its direction. -/
def Section.undirected : Section → Section
  | .objective _ => .objective .minimize
  | place => place

/-- A part without its direction. -/
def Part.undirected : Part → Part
  | .header opened => .header opened.undirected
  | .objective _ st => .objective .minimize st
  | part => part

/-- An outcome without its direction. -/
def Outcome.undirected : Outcome → Outcome
  | .opened place => .opened place.undirected
  | .term _ t => .term .minimize t
  | o => o

/-- Without its direction a part has the same outcome but for this
direction, and the same is said of names. -/
theorem answer_undirected (s : Symbols) (part : Part) :
    answer s part.undirected = ((answer s part).1.undirected, (answer s part).2) := by
  cases part with
  | header opened => rfl
  | outside c => rfl
  | afterEnd c => rfl
  | objective sense st =>
      rw [Part.undirected, answer, answer]
      rcases Draft.objectiveTerm st.text s with ⟨_ | _, _⟩ <;> rfl
  | constraint st =>
      show answer s (.constraint st) = _
      rw [answer]
      rcases constraintStatement st s with ⟨_ | _, _⟩ <;> rfl
  | bounds st =>
      show answer s (.bounds st) = _
      rw [answer]
      cases boundClause st <;> rfl
  | word kind line w =>
      have hyields := answer_yields s (.word kind line w)
      show answer s (.word kind line w) = _
      generalize answer s (.word kind line w) = r at hyields ⊢
      obtain ⟨o, s'⟩ := r
      cases o with
      | declaration name kind' line' => rfl
      | problem p => rfl
      | _ => exact hyields.elim

theorem answers_undirected (s : Symbols) (parts : List Part) :
    answers s (parts.map Part.undirected)
      = ((answers s parts).1.map Outcome.undirected, (answers s parts).2) := by
  induction parts generalizing s with
  | nil => rfl
  | cons part parts ih => rw [List.map_cons, answers, answer_undirected, ih, answers, List.map_cons]

/-- What is kept of outcomes, apart from directions, is kept of those
without directions. -/
theorem filterMap_undirected {α : Type} {f : Outcome → Option α}
    (h : ∀ o, f o.undirected = f o) (outcomes : List Outcome) :
    (outcomes.map Outcome.undirected).filterMap f = outcomes.filterMap f := by
  rw [List.filterMap_map]
  exact List.filterMap_congr fun o _ => h o

/-- Whether two texts differ at most in the directions of their sections. -/
def IsRedirected (text text' : String) : Prop :=
  (partsOf text').map Part.undirected = (partsOf text).map Part.undirected

instance (text text' : String) : Decidable (IsRedirected text text') :=
  inferInstanceAs (Decidable ((partsOf text').map Part.undirected = _))

/-- The objective of a draft is only handed on. -/
theorem settle_objective (d : Draft) (objective : Option Objective) :
    Draft.settle { d with objective }
      = ({ d.settle.1 with model := ⟨objective.getD .zero, d.settle.1.model.constraints⟩ },
          d.settle.2) := rfl

/-- Of all directions only that of the first header counts. -/
theorem read_redirected {registry : Registry} {text text' : String} (h : IsRedirected text text') :
    read registry text'
      = ({ (read registry text).1 with
            model := ⟨⟨openingDirection text', (read registry text).1.model.objective.term⟩,
              (read registry text).1.model.constraints⟩ },
          (read registry text).2) := by
  -- The outcomes are the same without their directions.
  have hanswers : (answers (.start registry) (partsOf text')).1.map Outcome.undirected
      = (answers (.start registry) (partsOf text)).1.map Outcome.undirected
      ∧ (answers (.start registry) (partsOf text')).2
        = (answers (.start registry) (partsOf text)).2 := by
    have hparts := congrArg (answers (.start registry)) h
    rw [answers_undirected, answers_undirected] at hparts
    exact Prod.mk.inj hparts
  have hkept : ∀ {α : Type} {f : Outcome → Option α}, (∀ o, f o.undirected = f o) →
      (answers (.start registry) (partsOf text')).1.filterMap f
        = (answers (.start registry) (partsOf text)).1.filterMap f := fun hf => by
    rw [← filterMap_undirected hf, hanswers.1, filterMap_undirected hf]
  have hobjective : (read registry text').1.model.objective
      = ⟨openingDirection text', (read registry text).1.model.objective.term⟩ := by
    rw [objective_eq, objective_eq, map_snd_contributions, map_snd_contributions,
      hkept fun o => by cases o <;> rfl]
  have hdraft : Draft.ofText registry text'
      = { Draft.ofText registry text with
          objective := (Draft.ofText registry text').objective } := by
    have hconstraints := @hkept _ Outcome.constraint? fun o => by cases o <;> rfl
    have hproblems := @hkept _ Outcome.problem? fun o => by cases o <;> rfl
    rw [Draft.ofText_eq, Draft.ofText_eq, hanswers.2, hconstraints, hproblems]
  calc read registry text'
      = (Draft.ofText registry text').settle := rfl
    _ = Draft.settle { Draft.ofText registry text with
          objective := (Draft.ofText registry text').objective } := congrArg Draft.settle hdraft
    _ = ({ (read registry text).1 with
            model := ⟨(read registry text').1.model.objective,
              (read registry text).1.model.constraints⟩ },
          (read registry text).2) := settle_objective ..
    _ = _ := by rw [hobjective]

/-- The objective has the direction of the first header and is the sum of
what is contributed to it. In a text that is read without a problem,
each section with contents contributes one term, and these terms stand
under the direction of the objective exactly if all of the sections have
the direction of the first header. That they have it is not asked for: a
text is read in the same way, and with the same problems, whatever the
directions of its sections are, apart from that of the first header. -/
theorem objective_of_read (registry : Registry) (text : String) :
    (read registry text).1.model.objective
        = ⟨openingDirection text, ((contributions registry text).map (·.2)).foldl (· + ·) 0⟩
      ∧ ((read registry text).1.problems = [] →
        (contributions registry text).map (·.1) = contributingDirections text
          ∧ ((∀ c ∈ contributions registry text,
              c.1 = (read registry text).1.model.objective.sense)
            ↔ ∀ sense ∈ contributingDirections text, sense = openingDirection text))
      ∧ ∀ text', IsRedirected text text' →
        read registry text'
          = ({ (read registry text).1 with
                model := ⟨⟨openingDirection text', (read registry text).1.model.objective.term⟩,
                  (read registry text).1.model.constraints⟩ },
              (read registry text).2) := by
  refine ⟨objective_eq registry text, fun hproblems => ?_, fun text' h => read_redirected h⟩
  have hdirections : (contributions registry text).map (·.1) = contributingDirections text := by
    obtain ⟨final, heq, _⟩ := read_spec registry text
    rw [heq, Draft.ofText_eq] at hproblems
    rw [contributions, directions_of_yields (answers_yield (.start registry) (partsOf text))
      (List.append_eq_nil_iff.mp hproblems).1, filterMap_direction?_partsOf]
  refine ⟨hdirections, ?_⟩
  rw [← hdirections, List.forall_mem_map, objective_eq]

/-- Two sections of one direction. -/
def sameDirectionsText : String := "MAX\n x\nMAX\n y\nEND\n"

/-- The second section has the other direction. -/
def mixedDirectionsText : String := "MAX\n x\nMIN\n y\nEND\n"

theorem sameDirections_areRead :
    (∀ c ∈ contributions ∅ sameDirectionsText, c.1 = .maximize)
      ∧ (read ∅ mixedDirectionsText).1.model.objective.sense = .maximize
      ∧ (read ∅ mixedDirectionsText).1.problems = [] := by
  have hproblems : (read ∅ sameDirectionsText).1.problems = [] := by
    rw [← List.isEmpty_iff]
    decide +kernel
  have hsame : ∀ sense ∈ contributingDirections sameDirectionsText,
      sense = openingDirection sameDirectionsText := by decide +kernel
  have hsense : (read ∅ sameDirectionsText).1.model.objective.sense = .maximize := by
    decide +kernel
  have hopening : openingDirection mixedDirectionsText = .maximize := by decide +kernel
  obtain ⟨_, hread, hredirected⟩ := objective_of_read ∅ sameDirectionsText
  have hmixed := hredirected mixedDirectionsText (by decide +kernel)
  refine ⟨fun c hc => ?_, ?_, ?_⟩
  · rw [(hread hproblems).2.mpr hsame c hc, hsense]
  · rw [hmixed, hopening]
  · rw [hmixed]
    exact hproblems

/-- The direction of a section that is empty decides for one that is not. -/
def emptyFirstText : String := "MAX\nMIN\n x\nEND\n"

/-- Statements under opposite directions are added up, and an objective
that is to be minimized is maximized. Nothing is reported. -/
theorem mixedDirections_isMerged :
    (contributingDirections mixedDirectionsText = [.maximize, .minimize]
      ∧ (read ∅ mixedDirectionsText).1.problems = [])
      ∧ contributingDirections emptyFirstText = [.minimize]
      ∧ (read ∅ emptyFirstText).1.problems = []
      ∧ (read ∅ emptyFirstText).1.model.objective.sense = .maximize := by
  have hproblems : ∀ text, (read ∅ text).1.problems.isEmpty = true →
      (read ∅ text).1.problems = [] := fun text => List.isEmpty_iff.mp
  refine ⟨⟨by decide +kernel, hproblems _ (by decide +kernel)⟩, by decide +kernel,
    hproblems _ (by decide +kernel), by decide +kernel⟩

end LinearProgram.LpText
