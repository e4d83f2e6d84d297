import LinearProgram.Proofs.LpText.Reading.Symbols
import LinearProgram.Proofs.LpText.Reading.Tokens

/-!
# `LinearProgram.Proofs.LpText.Accepted.Names`: the names in a text

A name gets into a text as a token, or as a word that is declared to be
of a kind. A token is never a word for infinity, because that would be a
number; a declared word may be one.

* `isPlainName_of_tokenize`: the names among the tokens of a text.
* `Symbols.IsNamed`: all names are names, and bounds are only given to
  those that are no words for infinity. Every reading keeps this.
-/

set_option autoImplicit false

namespace LinearProgram.LpText

/-! ### Tokens -/

/-- Whether no name among tokens is a word for infinity. -/
def HasPlainNames (tokens : List (Token Float)) : Prop :=
  ∀ name, .name name ∈ tokens → IsPlainName name

theorem isPlainName_of_tokenAt {c : Char} {rest after : List Char} {name : String}
    (h : tokenAt c rest = .ok (.name name, after)) : IsPlainName name := by
  unfold tokenAt at h
  split at h
  case h_14 =>
    split at h
    · simp only at h
      split at h
      · cases h
      · cases h
    · split at h
      · rename_i hstart
        simp only at h
        split at h
        · cases h
        · rename_i hinfinity
          cases h
          rw [IsPlainName, String.toList_ofList, isName, hstart, Bool.true_and]
          exact ⟨List.all_takeWhile, Bool.not_eq_true _ ▸ hinfinity⟩
      · cases h
  all_goals cases h

/-- The names among the tokens of a text are names. -/
theorem isPlainName_of_tokenize {text : List Char} {tokens : List (Token Float)}
    (h : tokenize text = .ok tokens) : HasPlainNames tokens := by
  induction text using tokenize.induct generalizing tokens with
  | case1 =>
      rw [tokenize] at h
      cases h
      intro name hname
      exact absurd hname List.not_mem_nil
  | case2 c rest hblank ih =>
      rw [tokenize, if_pos hblank] at h
      exact ih h
  | case3 c rest hblank t after heq hle ih =>
      rw [tokenize, if_neg hblank] at h
      split at h
      · rename_i t' after' heq'
        rw [heq] at heq'
        cases heq'
        cases hafter : tokenize after with
        | error e =>
            rw [hafter] at h
            cases h
        | ok others =>
            rw [hafter] at h
            cases h
            intro name hname
            rcases List.mem_cons.mp hname with rfl | hname
            · exact isPlainName_of_tokenAt heq
            · exact ih hafter name hname
      · cases h
  | case4 c rest hblank e heq =>
      rw [tokenize, if_neg hblank] at h
      split at h
      · rename_i heq'
        rw [heq] at heq'
        cases heq'
      · cases h

/-! ### Symbols -/

namespace Symbols

/-- Whether all names are names, and those that bounds are given to are
no words for infinity. -/
def IsNamed (s : Symbols) : Prop :=
  ∀ name e, s.entries.get? name = some e →
    isName name.toList = true ∧ (e.bounds.isSome = true → IsPlainName name)

theorem isNamed_start (registry : Registry) : (start registry).IsNamed :=
  fun _ _ he => by cases he

namespace IsNamed

variable {s : Symbols}

theorem mention (h : s.IsNamed) {name : String} (hname : isName name.toList = true) :
    (s.mention name).2.IsNamed := by
  intro n e he
  rw [get?_mention] at he
  split at he
  · rename_i hn
    subst hn
    cases hget : s.entries.get? n with
    | some d =>
        rw [hget] at he
        rw [← Option.some.inj he]
        exact h n d hget
    | none =>
        rw [hget] at he
        rw [← Option.some.inj he]
        exact ⟨hname, nofun⟩
  · exact h n e he

theorem note (h : s.IsNamed) {name : String} {f : Entry → Entry}
    {keeps : ∀ e, (f e).handle = e.handle}
    (hf : ∀ e, (f e).bounds = e.bounds ∨ IsPlainName name) : (s.note name f keeps).IsNamed := by
  intro n e he
  rw [get?_note] at he
  split at he
  · rename_i hn
    subst hn
    obtain ⟨d, hd, rfl⟩ := Option.map_eq_some_iff.mp he
    refine ⟨(h n d hd).1, ?_⟩
    rcases hf d with heq | hplain
    · rw [heq]
      exact (h n d hd).2
    · exact fun _ => hplain
  · exact h n e he

theorem declareKind (h : s.IsNamed) (name : String) (kind : Kind) (line : Nat) :
    (s.declareKind name kind line).IsNamed := h.note fun _ => .inl rfl

theorem declareBounds (h : s.IsNamed) {name : String} (hname : IsPlainName name)
    (lower upper : Option Float) (line : Nat) :
    (s.declareBounds name lower upper line).IsNamed :=
  (h.mention hname.1).note fun _ => .inr hname

theorem declareGuard (h : s.IsNamed) (line : Nat) (v : Variable) :
    (LpText.declareGuard line v s).IsNamed := by
  have hupdate : (s.mapRegistry fun r => r.update v fun a =>
      { a with kind := .binary, lower := 0, upper := 1 }).IsNamed := h
  exact hupdate.declareKind v.name .binary line

end IsNamed

/-- That names are names if they were so before. -/
theorem isReach_isNamed : IsReach fun s s' => s.IsNamed → s'.IsNamed :=
  ⟨fun _ => id, fun h h' hs => h' (h hs)⟩

end Symbols

theorem isNamed_expression {tokens : List (Token Float)} (h : HasPlainNames tokens) :
    Leads (fun s s' => s.IsNamed → s'.IsNamed) (expression tokens) :=
  leads_expression Symbols.isReach_isNamed fun name hname _ hs => hs.mention (h name hname).1

theorem isNamed_constraintStatement (statement : Numbered) :
    Leads (fun s s' => s.IsNamed → s'.IsNamed) (constraintStatement statement) := by
  intro s hs
  rw [constraintStatement, Action.bind_apply]
  cases htokens : tokenize statement.text with
  | error e => exact hs
  | ok tokens =>
      exact leads_constraintOf Symbols.isReach_isNamed
        (fun name hname _ hs => hs.mention (isPlainName_of_tokenize htokens name hname).1)
        (fun line v _ hs => hs.declareGuard line v) _ s hs

theorem isNamed_objectiveTerm (text : List Char) :
    Leads (fun s s' => s.IsNamed → s'.IsNamed) (Draft.objectiveTerm text) := by
  intro s hs
  rw [Draft.objectiveTerm, Action.bind_apply]
  cases htokens : tokenize text with
  | error e => exact hs
  | ok tokens =>
      exact isNamed_expression
        (fun name hname => isPlainName_of_tokenize htokens name (mem_of_mem_splitName hname)) s hs

/-! ### Bounds -/

/-- The name that bounds are given to is one of the tokens. -/
theorem name_mem_of_boundOf {text : String} {tokens : List (Token Float)} {clause : BoundClause}
    (h : boundOf text tokens = .ok clause) : .name clause.name ∈ tokens := by
  have hfirst := fun t => (@mem_of_mem_sides Float tokens t).1
  have hothers := fun t => (@mem_of_mem_sides Float tokens t).2
  have hname : ∀ {name : String} {r : Relation} {x : Except (ReadError Float) Float},
      x.map (clauseOf name r) = .ok clause → clause.name = name := by
    intro name r x hx
    cases x with
    | error e => cases hx
    | ok value =>
        cases hx
        cases r <;> rfl
  unfold boundOf at h
  split at h
  · rename_i name hfree
    cases h
    unfold freeName? at hfree
    split at hfree
    · split at hfree
      · cases hfree
        exact List.mem_cons_self ..
      · cases hfree
    · cases hfree
  split at h
  · rename_i name r rhs heq
    rw [heq] at hfirst
    rw [hname h]
    exact hfirst _ (List.mem_singleton_self _)
  · rename_i lhs r name _ heq
    rw [heq] at hothers
    rw [hname h]
    exact hothers _ _ (List.mem_singleton_self _) (List.mem_singleton_self _)
  · cases h
  · rename_i lhs l name r rhs heq
    rw [heq] at hothers
    have hclause : clause.name = name := by
      split at h
      · unfold rangeClause at h
        split at h
        · cases h
          rfl
        · cases h
          rfl
        · cases h
      · cases h
      · cases h
    rw [hclause]
    exact hothers _ _ (List.mem_cons_self ..) (List.mem_singleton_self _)
  · cases h
  · cases h

theorem isNamed_boundStatement (statement : Numbered) :
    Leads (fun s s' => s.IsNamed → s'.IsNamed) (boundStatement statement) := by
  intro s hs
  rw [boundStatement, Action.bind_apply]
  cases htokens : tokenize statement.text with
  | error e => exact hs
  | ok tokens =>
      cases hclause : boundOf (String.ofList statement.text) tokens with
      | error e =>
          show ((Action.lift id (boundOf (String.ofList statement.text) tokens) >>= _) s).2.IsNamed
          rw [hclause]
          exact hs
      | ok clause =>
          show ((Action.lift id (boundOf (String.ofList statement.text) tokens) >>= _) s).2.IsNamed
          rw [hclause]
          exact hs.declareBounds
            (isPlainName_of_tokenize htokens _ (name_mem_of_boundOf hclause)) _ _ _

end LinearProgram.LpText
