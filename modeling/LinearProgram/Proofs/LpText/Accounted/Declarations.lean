import LinearProgram.Proofs.LpText.Accounted.Outcomes

/-!
# `LinearProgram.Proofs.LpText.Accounted.Declarations`: what is said of names

What a text says of a variable is said by few of its parts. Expressions
and constraints leave all bounds alone, and take no kind away
(`Symbols.Retains`), whether they can be read or not.

* `boundsOf_answers`: bounds are what the outcomes on bounds say, and a
  statement on bounds that cannot be read changes nothing.
* `kindOf_of_declaration`: a declaration that is recorded stays, unless
  a guard makes the variable binary.
-/

set_option autoImplicit false

namespace LinearProgram.LpText

namespace Symbols

/-- Whether kinds that have been declared stay, unless they become
binary. -/
def KeepsKinds (s s' : Symbols) : Prop :=
  ∀ name k line, s.kindOf name = some (k, line) →
    ∃ k' line', s'.kindOf name = some (k', line') ∧ (k' = k ∨ k' = .binary)

/-- What a reading retains that is neither one of bounds nor one of a
declaration. -/
structure Retains (s s' : Symbols) : Prop where
  bounds : ∀ name, s'.boundsOf name = s.boundsOf name
  kinds : s.KeepsKinds s'

variable {s s' s'' : Symbols}

theorem KeepsKinds.refl (s : Symbols) : s.KeepsKinds s :=
  fun _ k line h => ⟨k, line, h, .inl rfl⟩

theorem KeepsKinds.trans (h : s.KeepsKinds s') (h' : s'.KeepsKinds s'') : s.KeepsKinds s'' := by
  intro name k line hk
  obtain ⟨k', line', hk', hsame⟩ := h name k line hk
  obtain ⟨k'', line'', hk'', hsame'⟩ := h' name k' line' hk'
  refine ⟨k'', line'', hk'', ?_⟩
  rcases hsame' with rfl | hbinary
  · exact hsame
  · exact .inr hbinary

theorem isReach_retains : IsReach Retains where
  refl s := ⟨fun _ => rfl, .refl s⟩
  trans h h' := ⟨fun name => (h'.bounds name).trans (h.bounds name), h.kinds.trans h'.kinds⟩

theorem kindOf_mention (s : Symbols) (name n : String) :
    (s.mention name).2.kindOf n = s.kindOf n := by
  rw [kindOf, get?_mention, kindOf]
  split
  · rename_i hn
    rw [hn]
    cases s.entries.get? name <;> rfl
  · rfl

theorem boundsOf_mention (s : Symbols) (name n : String) :
    (s.mention name).2.boundsOf n = s.boundsOf n := by
  rw [boundsOf, get?_mention, boundsOf]
  split
  · rename_i hn
    rw [hn]
    cases s.entries.get? name <;> rfl
  · rfl

/-- Only the kind of the name is declared, and its bounds stay. -/
theorem boundsOf_declareKind (s : Symbols) (name : String) (kind : Kind) (line : Nat) (n : String) :
    (s.declareKind name kind line).boundsOf n = s.boundsOf n := by
  rw [boundsOf, declareKind, get?_note, boundsOf]
  split
  · rename_i hn
    rw [hn]
    cases s.entries.get? name <;> rfl
  · rfl

/-- A kind is declared of a name that has an entry. -/
theorem kindOf_declareKind (s : Symbols) (name : String) (kind : Kind) (line : Nat) (n : String) :
    (s.declareKind name kind line).kindOf n
      = if n = name then (s.entries.get? name).map fun _ => (kind, line) else s.kindOf n := by
  rw [kindOf, declareKind, get?_note]
  split
  · cases s.entries.get? name <;> rfl
  · rfl

/-- A word that is declared has the kind. -/
theorem kindOf_declareKind_mention (s : Symbols) (name : String) (kind : Kind) (line : Nat)
    (n : String) :
    ((s.mention name).2.declareKind name kind line).kindOf n
      = if n = name then some (kind, line) else s.kindOf n := by
  rw [kindOf_declareKind, get?_mention, if_pos rfl, kindOf_mention]
  rfl

theorem kindOf_declareBounds (s : Symbols) (name : String) (lower upper : Option Float)
    (line : Nat) (n : String) :
    (s.declareBounds name lower upper line).kindOf n = s.kindOf n := by
  rw [← kindOf_mention s name n, kindOf, declareBounds, get?_note, kindOf]
  split
  · rename_i hn
    rw [hn]
    cases (s.mention name).2.entries.get? name <;> rfl
  · rfl

/-- Bounds replace earlier ones of the name on the sides that are given. -/
theorem boundsOf_declareBounds (s : Symbols) (name : String) (lower upper : Option Float)
    (line : Nat) (n : String) :
    (s.declareBounds name lower upper line).boundsOf n
      = if n = name then some (updatedBounds (s.boundsOf name) lower upper line)
        else s.boundsOf n := by
  rw [← boundsOf_mention s name name, ← boundsOf_mention s name n, boundsOf, declareBounds,
    get?_note]
  split
  · rw [get?_mention, if_pos rfl, boundsOf, get?_mention, if_pos rfl]
    rfl
  · rfl

theorem retains_mention (s : Symbols) (name : String) : s.Retains (s.mention name).2 := by
  refine ⟨boundsOf_mention s name, fun n k line hk => ⟨k, line, ?_, .inl rfl⟩⟩
  rw [kindOf_mention]
  exact hk

theorem retains_declareGuard (s : Symbols) (line : Nat) (v : Variable) :
    s.Retains (declareGuard line v s) := by
  refine ⟨boundsOf_declareKind _ v.name .binary line, fun n k old hk => ?_⟩
  rw [declareGuard, kindOf_declareKind]
  split
  · -- The variable of the guard had an entry, and becomes binary.
    rename_i hn
    obtain ⟨e, he, _⟩ := Option.bind_eq_some_iff.mp hk
    rw [hn] at he
    refine ⟨.binary, line, ?_, .inr rfl⟩
    show (s.entries.get? v.name).map _ = _
    rw [he]
    rfl
  · exact ⟨k, old, hk, .inl rfl⟩

end Symbols

theorem retains_objectiveTerm (text : List Char) :
    Leads Symbols.Retains (Draft.objectiveTerm text) :=
  Leads.bind Symbols.isReach_retains (leads_lift Symbols.isReach_retains _ _) fun _ =>
    leads_expression Symbols.isReach_retains fun name _ s => s.retains_mention name

theorem retains_constraintStatement (statement : Numbered) :
    Leads Symbols.Retains (constraintStatement statement) :=
  Leads.bind Symbols.isReach_retains (leads_lift Symbols.isReach_retains _ _) fun _ =>
    leads_constraintOf Symbols.isReach_retains (fun name _ s => s.retains_mention name)
      (fun line v s => s.retains_declareGuard line v) _

/-- The bounds of a name after an outcome. -/
def Outcome.toBounds (name : String) (old : Option DeclaredBounds) :
    Outcome → Option DeclaredBounds
  | .bounds line clause =>
    if name = clause.name then some (Symbols.updatedBounds old clause.lower clause.upper line)
    else old
  | _ => old

/-- Only the outcomes of statements on bounds are about bounds. -/
theorem toBounds_of_yields {part : Part} {o : Outcome} (h : part.Yields o)
    (hpart : ∀ st, part ≠ .bounds st) (name : String) (old : Option DeclaredBounds) :
    o.toBounds name old = old := by
  cases o with
  | bounds line clause =>
      cases part with
      | bounds st => exact absurd rfl (hpart st)
      | _ => exact h.elim
  | _ => rfl

/-- Where a reading ends. -/
theorem snd_outcomeOf {α : Type} (line : Nat) (keep : α → Outcome)
    (r : Except (ReadError Float) α × Symbols) : (outcomeOf line keep r).2 = r.2 := by
  rcases r with ⟨_ | _, _⟩ <;> rfl

/-- What becomes of a word says nothing of bounds and takes no kind away. -/
theorem retains_answerWord (kind : Kind) (line : Nat) (word : List Char) (s : Symbols) :
    s.Retains (answerWord kind line word s).2 := by
  have hmention := s.retains_mention (String.ofList word)
  -- It is declared where it has no kind yet, or this one.
  have hdeclare : (∀ k old, s.kindOf (String.ofList word) = some (k, old) → k = kind) →
      s.Retains
        ((s.mention (String.ofList word)).2.declareKind (String.ofList word) kind line) := by
    intro hsame
    refine ⟨fun n => ?_, fun n k old hk => ?_⟩
    · rw [Symbols.boundsOf_declareKind, Symbols.boundsOf_mention]
    · rw [Symbols.kindOf_declareKind_mention]
      split
      · rename_i hn
        rw [hn] at hk
        exact ⟨kind, line, rfl, .inl (hsame k old hk).symm⟩
      · exact ⟨k, old, hk, .inl rfl⟩
  rw [answerWord]
  split
  · dsimp only
    rw [Symbols.kindOf_mention]
    split
    · rename_i declared old heq
      split
      · rename_i hsame
        refine hdeclare fun k old' hk => ?_
        rw [heq] at hk
        cases hk
        exact hsame
      · exact hmention
    · rename_i hnone
      refine hdeclare fun k old hk => ?_
      rw [hnone] at hk
      cases hk
  · exact Symbols.isReach_retains.refl s

/-- Bounds are changed by their statements alone. -/
theorem boundsOf_answer (s : Symbols) (part : Part) (name : String) :
    (answer s part).2.boundsOf name = (answer s part).1.toBounds name (s.boundsOf name) := by
  have hother : (∀ st, part ≠ .bounds st) → s.Retains (answer s part).2 →
      (answer s part).2.boundsOf name = (answer s part).1.toBounds name (s.boundsOf name) :=
    fun hpart hretains => by
      rw [hretains.bounds, toBounds_of_yields (answer_yields s part) hpart]
  cases part with
  | header opened => rfl
  | outside c => rfl
  | afterEnd c => rfl
  | objective sense st =>
      refine hother (fun _ h => by cases h) ?_
      rw [answer, snd_outcomeOf]
      exact retains_objectiveTerm st.text s
  | constraint st =>
      refine hother (fun _ h => by cases h) ?_
      rw [answer, snd_outcomeOf]
      exact retains_constraintStatement st s
  | word kind line w => exact hother (fun _ h => by cases h) (retains_answerWord kind line w s)
  | bounds st =>
      rw [answer]
      cases boundClause st with
      | error e => rfl
      | ok clause =>
          dsimp only
          rw [Symbols.boundsOf_declareBounds, Outcome.toBounds]
          split
          · rename_i hname
            rw [hname]
          · rfl

theorem keepsKinds_answer (s : Symbols) (part : Part) : s.KeepsKinds (answer s part).2 := by
  cases part with
  | header opened => exact .refl s
  | outside c => exact .refl s
  | afterEnd c => exact .refl s
  | objective sense st =>
      rw [answer, snd_outcomeOf]
      exact (retains_objectiveTerm st.text s).kinds
  | constraint st =>
      rw [answer, snd_outcomeOf]
      exact (retains_constraintStatement st s).kinds
  | word kind line w => exact (retains_answerWord kind line w s).kinds
  | bounds st =>
      rw [answer]
      cases boundClause st with
      | error e => exact .refl s
      | ok clause =>
          intro name k line hk
          refine ⟨k, line, ?_, .inl rfl⟩
          dsimp only
          rw [Symbols.kindOf_declareBounds]
          exact hk

/-- A word that is recorded as a declaration has been declared. -/
theorem kindOf_answer {s : Symbols} {part : Part} {name : String} {kind : Kind} {line : Nat}
    (h : (answer s part).1 = .declaration name kind line) :
    (answer s part).2.kindOf name = some (kind, line) := by
  have hyields := answer_yields s part
  rw [h] at hyields
  cases part with
  | word kind' line' w =>
      obtain ⟨rfl, rfl, rfl⟩ := hyields
      rw [answer, answerWord] at h ⊢
      split at h
      · rename_i hname
        rw [if_pos hname]
        dsimp only at h ⊢
        split at h
        · rename_i declared old heq
          split at h
          · rename_i hsame
            rw [if_pos hsame, Symbols.kindOf_declareKind_mention, if_pos rfl]
          · cases h
        · rw [Symbols.kindOf_declareKind_mention, if_pos rfl]
      · cases h
  | _ => exact hyields.elim

/-- In the end, bounds are what the outcomes say, one after another. -/
theorem boundsOf_answers (s : Symbols) (parts : List Part) (name : String) :
    (answers s parts).2.boundsOf name
      = (answers s parts).1.foldl (Outcome.toBounds name) (s.boundsOf name) := by
  induction parts generalizing s with
  | nil => rfl
  | cons part parts ih => rw [answers, List.foldl_cons, ← boundsOf_answer, ← ih]

theorem keepsKinds_answers (s : Symbols) (parts : List Part) :
    s.KeepsKinds (answers s parts).2 := by
  induction parts generalizing s with
  | nil => exact .refl s
  | cons part parts ih => exact (keepsKinds_answer s part).trans (ih _)

/-- What has been declared is declared in the end, of its kind unless a
guard has made it binary. -/
theorem kindOf_of_declaration {s : Symbols} {parts : List Part} {name : String} {kind : Kind}
    {line : Nat} (h : .declaration name kind line ∈ (answers s parts).1) :
    ∃ k line', (answers s parts).2.kindOf name = some (k, line') ∧ (k = kind ∨ k = .binary) := by
  induction parts generalizing s with
  | nil => cases h
  | cons part parts ih =>
      rcases List.mem_cons.mp h with h | h
      · -- It is declared now, and later parts leave it so.
        exact keepsKinds_answers _ parts name kind line (kindOf_answer h.symm)
      · exact ih h

end LinearProgram.LpText
