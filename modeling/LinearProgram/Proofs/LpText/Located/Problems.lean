import LinearProgram.Proofs.LpText.Declared.Bounds
import LinearProgram.Proofs.LpText.Declared.Conflicts
import LinearProgram.Proofs.LpText.Located.Lines

/-!
# `LinearProgram.Proofs.LpText.Located.Problems`: where problems are reported

First come the problems that were found while a text was read, and then
those with the variables whose bounds do not suit their kinds in the
end. Of such a variable bounds were declared, and the problem is put
down to the line of the last statement on them, or to the line where its
kind was set last if that is later.

* `linesOfBounds` and `linesOfKind` are the lines where a text sets the
  bounds and the kind of a name; `line_boundsOf_answers` and
  `line_kindOf_answers`: the last ones are those that are noted.
* `check_impliedBounds`: where no bounds were declared there is nothing
  wrong, so there is always a line to put a problem down to.
* `located_of_read` says where all the problems of a text are.
-/

set_option autoImplicit false

namespace LinearProgram.LpText

open Symbols (Mirrors)

variable {s : Symbols}

/-! ### Where bounds are set -/

/-- The line of a part, if it is a statement on the bounds of a name that
can be read. -/
def Part.boundsLine? (name : String) : Part → Option Nat
  | .bounds st =>
    match boundClause st with
    | .ok clause => if name = clause.name then some st.line else none
    | .error _ => none
  | _ => none

/-- The lines where a text sets the bounds of a name. -/
def linesOfBounds (text name : String) : List Nat :=
  (partsOf text).filterMap (·.boundsLine? name)

/-- Whether a part sets the bounds of a name or not, their line is where
they were set last. -/
theorem line_boundsOf_answer (s : Symbols) (part : Part) (name : String) :
    ((answer s part).2.boundsOf name).map (·.line)
      = (part.boundsLine? name).or ((s.boundsOf name).map (·.line)) := by
  have hother : (∀ st, part ≠ .bounds st) →
      (answer s part).2.boundsOf name = s.boundsOf name := fun hpart => by
    rw [boundsOf_answer, toBounds_of_yields (answer_yields s part) hpart]
  cases part with
  | bounds st =>
      rw [boundsOf_answer, answer, Part.boundsLine?]
      cases boundClause st with
      | error e => rfl
      | ok clause =>
          dsimp only
          rw [Outcome.toBounds]
          split <;> rfl
  | _ =>
      rw [hother fun _ h => by cases h]
      rfl

/-- The line of the bounds of a name is the last one where they are set. -/
theorem line_boundsOf_answers (s : Symbols) (parts : List Part) (name : String) :
    ((answers s parts).2.boundsOf name).map (·.line)
      = (parts.filterMap (·.boundsLine? name)).getLast?.or ((s.boundsOf name).map (·.line)) := by
  induction parts generalizing s with
  | nil => rfl
  | cons part parts ih =>
      rw [answers, ih, line_boundsOf_answer, List.filterMap_cons]
      cases part.boundsLine? name with
      | none => rfl
      | some line =>
          rw [List.getLast?_cons, Option.some_or, Option.or_some]
          rfl

/-! ### Where kinds are set -/

/-- Whether the kinds and the lines where they were set are the same. -/
def Symbols.SaysSameKinds (s s' : Symbols) : Prop := ∀ name, s'.kindOf name = s.kindOf name

theorem isReach_saysSameKinds : IsReach Symbols.SaysSameKinds where
  refl _ _ := rfl
  trans h h' name := (h' name).trans (h name)

theorem saysSameKinds_relation (tokens : List (Token Float)) :
    Leads Symbols.SaysSameKinds (relation tokens) :=
  leads_relation isReach_saysSameKinds fun name _ s => s.kindOf_mention name

theorem saysSameKinds_objectiveTerm (text : List Char) :
    Leads Symbols.SaysSameKinds (Draft.objectiveTerm text) :=
  Leads.bind isReach_saysSameKinds (leads_lift isReach_saysSameKinds _ _) fun _ =>
    leads_expression isReach_saysSameKinds fun name _ s => s.kindOf_mention name

/-- The variable of a guard becomes binary on its line. -/
theorem kindOf_declareGuard {v : Variable} (hv : v ∈ s.variableSet) (line : Nat) (name : String) :
    (declareGuard line v s).kindOf name
      = if name = v.name then some (.binary, line) else s.kindOf name := by
  obtain ⟨e, he, _⟩ := Symbols.mem_variableSet_iff.mp hv
  rw [declareGuard, Symbols.kindOf_declareKind]
  show (if name = v.name then (s.entries.get? v.name).map _ else s.kindOf name) = _
  rw [he]
  rfl

theorem kindOf_guard (h : s.IsSound) (line : Nat) (tokens : List (Token Float)) (name : String) :
    (guard line tokens s).2.kindOf name
      = (guardVariable? tokens s).elim (s.kindOf name)
          fun v => if name = v.name then some (.binary, line) else s.kindOf name := by
  have hsame := saysSameKinds_relation tokens s name
  have htally := tally_relation (Mirrors.refl h) tokens
  rw [guard, guardVariable?, Action.bind_apply]
  rcases hrelation : relation tokens s with ⟨e | g, s₁⟩
  · rw [hrelation] at hsame
    exact hsame
  · rw [hrelation] at hsame htally
    cases htally with
    | ok hlater hg =>
        dsimp only
        rcases hoccurring : g.term.occurring with _ | ⟨v, _ | ⟨w, others⟩⟩
        · exact hsame
        · have hv : v ∈ s₁.variableSet := by
            refine hg.known v (Constraint.occurs_of_mem_term ?_)
            rw [hoccurring]
            exact List.mem_singleton_self v
          rw [← hsame]
          exact kindOf_declareGuard hv line name
        · exact hsame

/-- A statement on a constraint sets the kind of the variable that it
makes binary, and no other one. -/
theorem kindOf_constraintStatement (h : s.IsSound) (st : Numbered) (name : String) :
    (constraintStatement st s).2.kindOf name
      = (forcedVariable? st s).elim (s.kindOf name)
          fun v => if name = v.name then some (.binary, st.line) else s.kindOf name := by
  rw [constraintStatement, forcedVariable?]
  cases tokenize st.text with
  | error e => rfl
  | ok tokens =>
      show (constraintOf st.line tokens s).2.kindOf name = _
      dsimp only
      have hsame := saysSameKinds_relation (splitArrow (splitName tokens).2).2 s name
      have hsound := (grows_relation (splitArrow (splitName tokens).2).2 s).sound h
      rw [constraintOf_eq, Action.bind_apply]
      generalize relation (splitArrow (splitName tokens).2).2 s = outcome at hsame hsound ⊢
      rcases outcome with ⟨e | c, s₁⟩
      · exact hsame
      · cases (splitArrow (splitName tokens).2).1 with
        | none => exact hsame
        | some guardTokens =>
            have hguard := kindOf_guard hsound st.line guardTokens name
            dsimp only at hguard hsame ⊢
            rw [hsame] at hguard
            rw [Action.bind_apply]
            generalize guard st.line guardTokens s₁ = outcome at hguard ⊢
            rcases outcome with ⟨e | g, s₂⟩
            · exact hguard
            · -- Attaching a guard sets no kind.
              show ((Action.lift .model _ : Reading Float _) s₂).2.kindOf name = _
              cases (nameAs c (splitName tokens).1).withIndicator s₂.registry g <;> exact hguard

/-- The line of a part, if it sets the kind of a name: the name is listed
and is not refused, or a guard makes it binary. -/
def Part.kindLine? (name : String) (s : Symbols) : Part → Option Nat
  | .word kind line w =>
    if name = String.ofList w ∧ (answerWord kind line w s).1.problem? = none then some line
    else none
  | .constraint st =>
    (forcedVariable? st s).bind fun v => if name = v.name then some st.line else none
  | _ => none

/-- The lines where parts set the kind of a name, one after another. -/
def linesOfKind (name : String) (s : Symbols) : List Part → List Nat
  | [] => []
  | part :: rest => (part.kindLine? name s).toList ++ linesOfKind name (answer s part).2 rest

theorem line_kindOf_answerWord (kind : Kind) (line : Nat) (w : List Char) (s : Symbols)
    (name : String) :
    ((answerWord kind line w s).2.kindOf name).map (·.2)
      = (Part.kindLine? name s (.word kind line w)).or ((s.kindOf name).map (·.2)) := by
  rw [Part.kindLine?]
  by_cases hw : isName w = true
  · rw [Symbols.snd_answerWord kind line hw]
    simp only [problem?_answerWord_eq_none_iff hw]
    by_cases hkind : (s.saidKind (String.ofList w)).getD kind = kind
    · rw [if_pos hkind, Symbols.kindOf_declareKind_mention]
      by_cases hname : name = String.ofList w
      · rw [if_pos hname, if_pos ⟨hname, hkind⟩]
        rfl
      · rw [if_neg hname, if_neg fun h => hname h.1]
        rfl
    · rw [if_neg hkind, if_neg fun h => hkind h.2, Symbols.kindOf_mention]
      rfl
  · rw [answerWord, if_neg hw, if_neg fun h => by cases h.2]
    rfl

/-- Whether a part sets the kind of a name or not, its line is where it
was set last. -/
theorem line_kindOf_answer (h : s.IsSound) (part : Part) (name : String) :
    ((answer s part).2.kindOf name).map (·.2)
      = (part.kindLine? name s).or ((s.kindOf name).map (·.2)) := by
  cases part with
  | header opened => rfl
  | outside c => rfl
  | afterEnd c => rfl
  | objective sense st =>
      rw [answer, snd_outcomeOf, saysSameKinds_objectiveTerm st.text s name]
      rfl
  | constraint st =>
      rw [answer, snd_outcomeOf, kindOf_constraintStatement h, Part.kindLine?]
      cases forcedVariable? st s with
      | none => rfl
      | some v =>
          dsimp only [Option.elim_some, Option.bind_some]
          split <;> rfl
  | bounds st =>
      rw [answer]
      cases boundClause st with
      | error e => rfl
      | ok clause => exact congrArg (Option.map _) (s.kindOf_declareBounds ..)
  | word kind line w => exact line_kindOf_answerWord kind line w s name

/-- The line of the kind of a name is the last one where it is set. -/
theorem line_kindOf_answers (h : s.IsProper) (parts : List Part) (name : String) :
    ((answers s parts).2.kindOf name).map (·.2)
      = (linesOfKind name s parts).getLast?.or ((s.kindOf name).map (·.2)) := by
  induction parts generalizing s with
  | nil => rfl
  | cons part parts ih =>
      rw [answers, ih (isProper_answer h part), line_kindOf_answer h.sound, linesOfKind,
        List.getLast?_append, ← Option.or_assoc]
      cases part.kindLine? name s <;> rfl

/-! ### Lines of a text -/

theorem line?_of_boundsLine? {part : Part} {name : String} {n : Nat}
    (h : part.boundsLine? name = some n) : part.line? = some n := by
  cases part with
  | bounds st =>
      rw [Part.boundsLine?] at h
      split at h
      · split at h
        · exact h
        · cases h
      · cases h
  | _ => cases h

theorem line?_of_kindLine? {part : Part} {name : String} {n : Nat}
    (h : part.kindLine? name s = some n) : part.line? = some n := by
  cases part with
  | constraint st =>
      obtain ⟨v, _, h⟩ := Option.bind_eq_some_iff.mp h
      split at h
      · exact h
      · cases h
  | word kind line w =>
      rw [Part.kindLine?] at h
      split at h
      · exact h
      · cases h
  | _ => cases h

theorem exists_part_of_mem_linesOfKind {parts : List Part} {name : String} {n : Nat}
    (h : n ∈ linesOfKind name s parts) : ∃ part ∈ parts, part.line? = some n := by
  induction parts generalizing s with
  | nil => cases h
  | cons part parts ih =>
      rcases List.mem_append.mp h with h | h
      · exact ⟨part, List.mem_cons_self .., line?_of_kindLine? (Option.mem_toList.mp h)⟩
      · obtain ⟨part', hpart', hline⟩ := ih h
        exact ⟨part', List.mem_cons_of_mem _ hpart', hline⟩

/-- The line where a text sets the bounds of a name last. -/
def lastBoundsLine? (text name : String) : Option Nat := (linesOfBounds text name).getLast?

/-- The line where a text sets the kind of a name last. -/
def lastKindLine? (registry : Registry) (text name : String) : Option Nat :=
  (linesOfKind name (.start registry) (partsOf text)).getLast?

theorem hasContent_of_lastBoundsLine? {text name : String} {n : Nat}
    (h : lastBoundsLine? text name = some n) : HasContent text n := by
  obtain ⟨part, hpart, hline⟩ := List.mem_filterMap.mp (List.mem_of_getLast? h)
  exact hasContent_of_part hpart (line?_of_boundsLine? hline)

theorem hasContent_of_lastKindLine? {registry : Registry} {text name : String} {n : Nat}
    (h : lastKindLine? registry text name = some n) : HasContent text n := by
  obtain ⟨part, hpart, hline⟩ := exists_part_of_mem_linesOfKind (List.mem_of_getLast? h)
  exact hasContent_of_part hpart hline

theorem line_boundsOf_ofText (registry : Registry) (text name : String) :
    ((Draft.ofText registry text).symbols.boundsOf name).map (·.line)
      = lastBoundsLine? text name := by
  rw [Draft.ofText_eq]
  exact (line_boundsOf_answers (.start registry) (partsOf text) name).trans (Option.or_none ..)

theorem line_kindOf_ofText (registry : Registry) (text name : String) :
    ((Draft.ofText registry text).symbols.kindOf name).map (·.2)
      = lastKindLine? registry text name := by
  rw [Draft.ofText_eq]
  exact (line_kindOf_answers (isProper_start registry) (partsOf text) name).trans
    (Option.or_none ..)

/-! ### Variables that are not valid -/

/-- Bounds that are implied suit every kind. -/
theorem check_impliedBounds {a : Attributes} (h : (a.lower, a.upper) = impliedBounds a.kind none)
    (name : String) : a.check name = .ok () := by
  have hkinds : ∀ kind : Kind,
      Attributes.isVoid (impliedBounds kind none).1 (impliedBounds kind none).2 = false
        ∧ (kind = .binary → ¬ (impliedBounds kind none).1 < 0 ∧ ¬ 1 < (impliedBounds kind none).2)
        ∧ (kind = .integer → Attributes.isFractional (impliedBounds kind none).1 = false
          ∧ Attributes.isFractional (impliedBounds kind none).2 = false) := by
    intro kind
    cases kind <;> decide
  rw [Attributes.check_eq_ok_iff]
  have hkind := hkinds a.kind
  rw [← h] at hkind
  exact hkind

/-- The line that is noted for a variable whose bounds were set. -/
theorem declaredLine_ofText {registry : Registry} {text : String} {v : Variable} {b : Nat}
    (h : lastBoundsLine? text v.name = some b) :
    (Draft.ofText registry text).symbols.declaredLine v
      = (lastKindLine? registry text v.name).elim b (max b) := by
  rw [← line_boundsOf_ofText registry] at h
  rw [← line_kindOf_ofText, Symbols.declaredLine]
  obtain ⟨bounds, hbounds, rfl⟩ := Option.map_eq_some_iff.mp h
  rw [hbounds]
  cases (Draft.ofText registry text).symbols.kindOf v.name with
  | none => exact Nat.max_zero _
  | some _ => rfl

/-- Whether a problem is that a variable is not valid in the end. Its
line is the one where bounds were set last, or the one where the kind
was set last if there is one and it is later. -/
structure Problem.IsOfVariable (registry : Registry) (text : String) (v : Variable) (p : Problem) :
    Prop where
  error : ∃ e, (read registry text).2.validate v = .error e ∧ p.error = .model e
  line : ∃ b, lastBoundsLine? text v.name = some b
    ∧ p.line = (lastKindLine? registry text v.name).elim b (max b)

theorem Problem.IsOfVariable.hasContent {registry : Registry} {text : String} {v : Variable}
    {p : Problem} (h : p.IsOfVariable registry text v) : HasContent text p.line := by
  obtain ⟨b, hb, hline⟩ := h.line
  have hbounds := hasContent_of_lastBoundsLine? hb
  rw [hline]
  cases hk : lastKindLine? registry text v.name with
  | none => exact hbounds
  | some k =>
      show HasContent text (max b k)
      rcases Nat.le_total k b with hle | hle
      · rw [Nat.max_eq_left hle]
        exact hbounds
      · rw [Nat.max_eq_right hle]
        exact hasContent_of_lastKindLine? hk

/-- A variable is found to be wrong only if its bounds were set. -/
theorem isOfVariable_of_invalid? {registry : Registry} {text : String} {v : Variable} {p : Problem}
    (hv : v ∈ (read registry text).1.variableSet)
    (h : invalid? (read registry text).2 ((Draft.ofText registry text).symbols.declaredLine v) v
      = some p) : p.IsOfVariable registry text v := by
  unfold invalid? at h
  split at h
  · cases h
  · rename_i e hinvalid
    cases h
    refine ⟨⟨e, hinvalid, rfl⟩, ?_⟩
    cases hlast : lastBoundsLine? text v.name with
    | some b => exact ⟨b, rfl, declaredLine_ofText hlast⟩
    | none =>
        -- Nothing was said of the bounds, so they are the implied ones.
        obtain ⟨_, _, haccounts⟩ := accounts_of_read registry text
        have hbounds := haccounts.bounds v hv
        rw [← line_boundsOf_ofText registry, Option.map_eq_none_iff, boundsOf_ofText] at hlast
        rw [hlast] at hbounds
        rw [Registry.validate, check_impliedBounds hbounds] at hinvalid
        cases hinvalid

/-- The variables of a text that are not valid in the end. -/
def invalidVariables (registry : Registry) (text : String) : List Variable :=
  (read registry text).1.variableSet.toList.filter
    fun v => !((read registry text).2.validate v).isOk

/-- What is kept of a list, beside what is made of it. -/
theorem forall₂_filter_filterMap {α β : Type} {R : α → β → Prop} {f : α → Option β} {l : List α}
    (h : ∀ a ∈ l, ∀ b, f a = some b → R a b) :
    List.Forall₂ R (l.filter fun a => (f a).isSome) (l.filterMap f) := by
  induction l with
  | nil => exact .nil
  | cons a l ih =>
      have hrest := ih fun a' ha' => h a' (List.mem_cons_of_mem _ ha')
      cases hf : f a with
      | none =>
          rw [List.filterMap_cons_none hf, List.filter_cons_of_neg (by simp [hf])]
          exact hrest
      | some b =>
          rw [List.filterMap_cons_some hf, List.filter_cons_of_pos (by simp [hf])]
          exact .cons (h a (List.mem_cons_self ..) b hf) hrest

/-- Every problem is on a line of the text that is not blank. The
problems that were found while the text was read come first, and their
lines never decrease. The others are those of the variables that are not
valid, one for each of them in the order of the names. -/
theorem located_of_read (registry : Registry) (text : String) :
    ∃ invalid, (read registry text).1.problems = (Draft.ofText registry text).problems ++ invalid
      ∧ ((Draft.ofText registry text).problems.map Problem.line).Pairwise (· ≤ ·)
      ∧ List.Forall₂ (fun v p => p.IsOfVariable registry text v) (invalidVariables registry text)
        invalid
      ∧ (invalidVariables registry text).Pairwise (fun v w => v.name < w.name)
      ∧ ∀ p ∈ (read registry text).1.problems, HasContent text p.line := by
  obtain ⟨_, _, haccounts⟩ := accounts_of_read registry text
  have hproblems := haccounts.problems
  have hfound : (Draft.ofText registry text).problems
      = (answers (.start registry) (partsOf text)).1.filterMap Outcome.problem? := by
    rw [Draft.ofText_eq]
  have hsymbols : (Draft.ofText registry text).symbols
      = (answers (.start registry) (partsOf text)).2 := by
    rw [Draft.ofText_eq]
  rw [← hfound, ← hsymbols] at hproblems
  have hinvalid : invalidVariables registry text
      = (read registry text).1.variableSet.toList.filter fun v =>
        (invalid? (read registry text).2
          ((Draft.ofText registry text).symbols.declaredLine v) v).isSome := by
    refine List.filter_congr fun v _ => ?_
    rw [invalid?]
    cases (read registry text).2.validate v <;> rfl
  refine ⟨_, hproblems, ?_, ?_, (VariableSet.pairwise_toList _).filter _, fun p hp => ?_⟩
  · rw [hfound]
    exact pairwise_lines_answers _ text
  · rw [hinvalid]
    exact forall₂_filter_filterMap fun v hv p hp =>
      isOfVariable_of_invalid? (VariableSet.mem_toList_iff.mp hv) hp
  · rw [hproblems] at hp
    rcases List.mem_append.mp hp with hp | hp
    · rw [hfound] at hp
      exact hasContent_of_answers hp
    · obtain ⟨v, hv, hp⟩ := List.mem_filterMap.mp hp
      exact (isOfVariable_of_invalid? (VariableSet.mem_toList_iff.mp hv) hp).hasContent

/-- The word that is no name is on line 3. The bounds of `b` are set on
line 6, and do not suit the kind that it has from line 8 on. For `a` it
is the other way round. -/
example : (read ∅ "MIN a + b\nBINARY\n a 1\nBOUNDS\n a <= 2\n b <= 3\nBIN\n b\nEND").1.problems.map
    (·.line) = [3, 5, 8] := by decide +kernel

end LinearProgram.LpText
