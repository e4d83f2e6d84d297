import LinearProgram.Proofs.LpText.Accepted.Documents
import LinearProgram.Proofs.LpText.Accounted.Declarations

/-!
# `LinearProgram.Proofs.LpText.Accounted.Documents`: nothing is lost silently

A text is read as what the outcomes of its parts say. The constraints
are those that were read, in their order, the objective is the sum of
its terms, bounds are those that were given last, and what could not be
read has been reported. The only other problems are variables whose
bounds do not suit their kinds in the end.

* `objective_answers`: the objective, of which a header is always there
  before a term is.
* `Document.Accounts` is what a document has, and `accounts_of_read` says
  it of every text.
-/

set_option autoImplicit false

namespace LinearProgram.LpText

/-! ### The objective -/

/-- The term, if the outcome is one. -/
def Outcome.term? : Outcome → Option (Term Float)
  | .term _ t => some t
  | _ => none

/-- The direction, if the outcome opens an objective. -/
def Outcome.direction? : Outcome → Option Sense
  | .opened (.objective sense) => some sense
  | _ => none

/-- Whether a part opens an objective. -/
def Part.opensObjective : Part → Bool
  | .header (.objective _) => true
  | _ => false

/-- Whether a part is to be added to the objective. -/
def Part.addsObjective : Part → Bool
  | .objective _ _ => true
  | _ => false

/-- Whether an objective is opened before something is added to it. -/
def IsHeaded : List Part → Prop
  | [] => True
  | part :: rest => part.opensObjective = true ∨ part.addsObjective = false ∧ IsHeaded rest

theorem isHeaded_append {parts rest : List Part}
    (h : ∀ part ∈ parts, part.addsObjective = false) (hrest : IsHeaded rest) :
    IsHeaded (parts ++ rest) := by
  induction parts with
  | nil => exact hrest
  | cons part parts ih =>
      exact .inr ⟨h part (List.mem_cons_self ..),
        ih fun p hp => h p (List.mem_cons_of_mem _ hp)⟩

/-- Only the passage of an objective adds to it. -/
theorem Passage.addsObjective_eq_false {p : Passage} (h : ∀ sense, p.place ≠ .objective sense) :
    ∀ part ∈ p.parts, part.addsObjective = false := by
  have hmap : ∀ {f : Numbered → Part} {l : List Numbered}, (∀ s, (f s).addsObjective = false) →
      ∀ part ∈ l.map f, part.addsObjective = false := by
    intro f l hf part hpart
    obtain ⟨s, _, rfl⟩ := List.mem_map.mp hpart
    exact hf s
  have hwords : ∀ {kind : Kind} {l : List Numbered}, ∀ part ∈ l.flatMap (wordParts kind),
      part.addsObjective = false := by
    intro kind l part hpart
    obtain ⟨c, _, hpart⟩ := List.mem_flatMap.mp hpart
    obtain ⟨w, _, rfl⟩ := List.mem_map.mp hpart
    rfl
  unfold Passage.parts
  cases hplace : p.place with
  | objective sense => exact absurd hplace (h sense)
  | preamble => exact hmap fun _ => rfl
  | closed => exact hmap fun _ => rfl
  | constraints => exact hmap fun _ => rfl
  | bounds => exact hmap fun _ => rfl
  | binary => exact hwords
  | general => exact hwords

theorem isHeaded_partsOf (text : String) : IsHeaded (partsOf text) := by
  refine isHeaded_append (fun part hpart => ?_) ?_
  · obtain ⟨c, _, rfl⟩ := List.mem_map.mp hpart
    rfl
  · induction (layout ((contents text.toList).flatMap piecesOf)).2 with
    | nil => trivial
    | cons p passages ih =>
        -- A passage that adds to the objective begins with its header.
        by_cases hplace : ∃ sense, p.place = .objective sense
        · obtain ⟨sense, hplace⟩ := hplace
          refine .inl ?_
          rw [hplace]
          rfl
        · refine .inr ⟨rfl, ?_⟩
          exact isHeaded_append
            (Passage.addsObjective_eq_false fun sense heq => hplace ⟨sense, heq⟩) ih

/-- To an objective that has been opened, the terms are added. -/
theorem foldl_toObjective_some (outcomes : List Outcome) (o : Objective) :
    outcomes.foldl Outcome.toObjective (some o)
      = some ⟨o.sense, (outcomes.filterMap Outcome.term?).foldl (· + ·) o.term⟩ := by
  induction outcomes generalizing o with
  | nil => rfl
  | cons outcome outcomes ih =>
      cases outcome with
      | opened place => cases place <;> exact ih o
      | term sense t => exact ih { o with term := o.term + t }
      | constraint c => exact ih o
      | bounds line clause => exact ih o
      | declaration name kind line => exact ih o
      | problem p => exact ih o

/-- The objective has the direction of its first header, and is the sum
of the terms that were read. -/
theorem objective_answers {s : Symbols} {parts : List Part} (h : IsHeaded parts) :
    ((answers s parts).1.foldl Outcome.toObjective none).getD .zero
      = ⟨((answers s parts).1.findSome? Outcome.direction?).getD .minimize,
          ((answers s parts).1.filterMap Outcome.term?).foldl (· + ·) 0⟩ := by
  induction parts generalizing s with
  | nil => rfl
  | cons part parts ih =>
      have hyields := answer_yields s part
      rw [answers]
      dsimp only
      rw [List.foldl_cons, List.findSome?_cons, List.filterMap_cons]
      generalize (answer s part).1 = o at hyields
      rcases h with hopens | ⟨hadds, hrest⟩
      · -- A header opens the objective, and its outcome is just that.
        cases part with
        | header opened =>
            cases opened with
            | objective sense =>
                cases o with
                | opened place =>
                    cases hyields
                    rw [Outcome.toObjective, Option.getD_none, foldl_toObjective_some]
                    rfl
                | _ => exact hyields.elim
            | _ => cases hopens
        | _ => cases hopens
      · -- Nothing is added yet, so that the outcome is no term.
        have hnext := @ih (answer s part).2 hrest
        cases o with
        | term sense t =>
            cases part with
            | objective sense' st => cases hadds
            | _ => exact hyields.elim
        | opened place =>
            cases place with
            | objective sense =>
                rw [Outcome.toObjective, Option.getD_none, foldl_toObjective_some]
                rfl
            | _ => exact hnext
        | _ => exact hnext

/-! ### Documents -/

/-- The line to which a problem with the bounds of a variable is put
down: the later one of its declarations. -/
def Symbols.declaredLine (s : Symbols) (v : Variable) : Nat :=
  max (match s.boundsOf v.name with
    | some b => b.line
    | none => 0) (match s.kindOf v.name with
    | some (_, line) => line
    | none => 0)

/-- The problem with a variable whose bounds do not suit its kind. -/
def invalid? (final : Registry) (line : Nat) (v : Variable) : Option Problem :=
  match final.validate v with
  | .ok () => none
  | .error error => some ⟨line, .model error⟩

/-- The bounds of a variable of a kind, given those that were declared. -/
def impliedBounds (kind : Kind) : Option DeclaredBounds → Float × Float
  | some b => (b.lower, b.upper)
  | none => if kind = .binary then (0, 1) else (0, Binary64.infinity)

/-- Whether a document has what the outcomes of a text say, and nothing
else. Here `s` is what was said of names when the text ended. -/
structure Document.Accounts (final : Registry) (s : Symbols) (outcomes : List Outcome)
    (doc : Document) : Prop where
  constraints : doc.model.constraints = outcomes.filterMap Outcome.constraint?
  objective : doc.model.objective = ⟨(outcomes.findSome? Outcome.direction?).getD .minimize,
    (outcomes.filterMap Outcome.term?).foldl (· + ·) 0⟩
  /-- What could not be read, and variables that are not valid. -/
  problems : doc.problems = outcomes.filterMap Outcome.problem?
    ++ doc.variableSet.toList.filterMap fun v => invalid? final (s.declaredLine v) v
  /-- The bounds given last, side by side, or those of the kind. -/
  bounds : ∀ v ∈ doc.variableSet,
    ((final.attributes v).lower, (final.attributes v).upper)
      = impliedBounds (final.attributes v).kind (outcomes.foldl (Outcome.toBounds v.name) none)
  /-- Bounds are never said of what is no variable. -/
  bounded : ∀ name, (outcomes.foldl (Outcome.toBounds name) none).isSome = true →
    ∃ v ∈ doc.variableSet, v.name = name
  /-- A guard may make a variable binary that has been declared. -/
  declared : ∀ name kind line, .declaration name kind line ∈ outcomes →
    ∃ v ∈ doc.variableSet, v.name = name
      ∧ ((final.attributes v).kind = kind ∨ (final.attributes v).kind = .binary)

/-- What has been read of a text is what its outcomes say. -/
theorem Draft.ofText_eq (registry : Registry) (text : String) :
    Draft.ofText registry text
      = { objective :=
            (answers (.start registry) (partsOf text)).1.foldl Outcome.toObjective none
          constraints :=
            (answers (.start registry) (partsOf text)).1.filterMap Outcome.constraint?
          symbols := (answers (.start registry) (partsOf text)).2
          problems :=
            (answers (.start registry) (partsOf text)).1.filterMap Outcome.problem? } := by
  have htake : Draft.take = fun d item => item.parts.foldl Draft.step d :=
    funext fun d => funext fun item => Draft.take_eq d item
  rw [Draft.ofText, htake, ← List.foldl_flatMap, flatMap_items_eq, Draft.foldl_step]
  rfl

theorem toList_variableSet (s : Symbols) :
    s.variableSet.toList = s.entries.values.map (·.handle) := by
  rw [← List.filterMap_eq_map]
  exact values_filterMap ..

/-- What is wrong with an entry is what is wrong with its variable. -/
theorem settlementProblem?_eq {s : Symbols} {final : Registry} {name : String} {e : Entry}
    (he : s.entries.get? name = some e)
    (hvalues : HasValues (final.attributes e.handle) (settled e)) :
    settlementProblem? e = invalid? final (s.declaredLine e.handle) e.handle := by
  have hline : s.declaredLine e.handle = Draft.finalLine e := by
    rw [Symbols.declaredLine, Symbols.boundsOf, Symbols.kindOf, s.keyed name e he, he]
    rfl
  have hvalidate : final.validate e.handle = (settled e).check e.handle.name :=
    hvalues.check_eq e.handle.name
  cases hcheck : (settled e).check e.handle.name with
  | ok _ => simp only [settlementProblem?, invalid?, hvalidate, hcheck]
  | error _ => simp only [settlementProblem?, invalid?, hline, hvalidate, hcheck]

/-- Whatever a text says, each of its parts has one outcome: it is read,
or there is a problem on its line. The document is what the outcomes
say, and the only other problems are those with the variables in the
end. -/
theorem accounts_of_read (registry : Registry) (text : String) :
    (contents text.toList).flatMap piecesOf
        = (layout ((contents text.toList).flatMap piecesOf)).1.map .content
          ++ (layout ((contents text.toList).flatMap piecesOf)).2.flatMap Passage.pieces
      ∧ List.Forall₂ Part.Yields (partsOf text) (answers (.start registry) (partsOf text)).1
      ∧ (read registry text).1.Accounts (read registry text).2
          (answers (.start registry) (partsOf text)).2
          (answers (.start registry) (partsOf text)).1 := by
  refine ⟨layout_eq _, answers_yield _ _, ?_⟩
  obtain ⟨final, heq, hfinal, _⟩ := read_spec registry text
  have hbounds := boundsOf_answers (.start registry) (partsOf text)
  have hdeclared := @kindOf_of_declaration (.start registry) (partsOf text)
  have hobjective := @objective_answers (.start registry) _ (isHeaded_partsOf text)
  rw [Draft.ofText_eq] at heq hfinal
  rw [heq]
  -- From here on it does not matter where the outcomes come from.
  generalize answers (.start registry) (partsOf text) = r at *
  obtain ⟨outcomes, s⟩ := r
  have hbounds : ∀ name, outcomes.foldl (Outcome.toBounds name) none = s.boundsOf name :=
    fun name => (hbounds name).symm
  have hvalues : ∀ v ∈ s.variableSet, ∃ e, s.entries.get? v.name = some e
      ∧ HasValues (final.attributes v) (settled e) := by
    intro v hv
    obtain ⟨e, he, rfl⟩ := Symbols.mem_variableSet_iff.mp hv
    exact ⟨e, he, hfinal _ e he⟩
  refine ⟨rfl, hobjective, ?_, fun v hv => ?_, fun name hsome => ?_, fun name kind line hmem => ?_⟩
  · show _ ++ _ = _ ++ _
    rw [toList_variableSet, List.filterMap_map]
    refine congrArg _ (List.filterMap_congr fun e he => ?_)
    obtain ⟨name, he⟩ := mem_values_iff.mp he
    exact settlementProblem?_eq he (hfinal name e he)
  · obtain ⟨e, he, hvalues⟩ := hvalues v hv
    rw [hbounds, Symbols.boundsOf, he, hvalues.kind, hvalues.lower, hvalues.upper]
    show Draft.finalBounds e = impliedBounds (Draft.finalKind e) e.bounds
    rw [Draft.finalBounds]
    cases e.bounds with
    | some b => rfl
    | none => cases Draft.finalKind e <;> rfl
  · rw [hbounds] at hsome
    obtain ⟨b, hb⟩ := Option.isSome_iff_exists.mp hsome
    obtain ⟨e, he, _⟩ := Option.bind_eq_some_iff.mp hb
    exact ⟨e.handle, Symbols.mem_of_get? he, s.keyed name e he⟩
  · obtain ⟨k, line', hkind, hsame⟩ := hdeclared hmem
    obtain ⟨e, he, hk⟩ := Option.bind_eq_some_iff.mp hkind
    refine ⟨e.handle, Symbols.mem_of_get? he, s.keyed name e he, ?_⟩
    have hfinalKind : (final.attributes e.handle).kind = k := by
      rw [(hfinal name e he).kind]
      show Draft.finalKind e = k
      rw [Draft.finalKind, hk]
    rw [hfinalKind]
    exact hsame

/-- Something is wrong on each of the lines 1, 5, 7 and 9: a content
before the objective, a constraint that begins on line 5 and ends on
line 6, a word that is no name, and a content behind the end. -/
example : ((read ∅ "x\nMIN y +\n z\nST\n c: x >=\n y\nBINARY b 3\nEND\n z >= 1").1.problems.map
    (·.line)) = [1, 5, 7, 9] := by decide +kernel

end LinearProgram.LpText
