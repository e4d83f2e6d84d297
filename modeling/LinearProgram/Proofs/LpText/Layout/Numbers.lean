import LinearProgram.Proofs.LpText.Accounted.Outcomes

/-!
# `LinearProgram.Proofs.LpText.Layout.Numbers`: line numbers do not matter

What is said of a name is kept with the numbers of lines. Nothing that is
read depends on them: with other numbers the same is read, and what is
kept then has the other numbers.

* `Symbols.renumbered` is a state with other numbers. It is compatible
  with the changes of a state (`mention_renumbered`, `note_renumbered` and
  its uses).
* `Renumbers` says this of two readings. It is closed under putting
  readings together (`Renumbers.bind`), and `renumbers_expression`,
  `renumbers_relation` and `renumbers_constraintOf` go through them.
-/

set_option autoImplicit false

namespace LinearProgram.LpText

/-! ### States with other numbers -/

/-- What is said of a variable, with other numbers. -/
def Entry.renumbered (f : Nat → Nat) (e : Entry) : Entry :=
  { e with
    kind := e.kind.map fun p => (p.1, f p.2)
    bounds := e.bounds.map fun b => { b with line := f b.line } }

namespace Symbols

variable {f : Nat → Nat}

/-- What is said of names, with other numbers. -/
def renumbered (f : Nat → Nat) (s : Symbols) : Symbols where
  registry := s.registry
  entries := s.entries.filterMap fun e => some (e.renumbered f)
  keyed name e h := by
    rw [OrderedMap.get?_filterMap] at h
    obtain ⟨d, hd, he⟩ := Option.bind_eq_some_iff.mp h
    rw [← Option.some.inj he]
    exact s.keyed name d hd

@[simp] theorem registry_renumbered (s : Symbols) : (s.renumbered f).registry = s.registry := rfl

theorem get?_renumbered (s : Symbols) (name : String) :
    (s.renumbered f).entries.get? name = (s.entries.get? name).map (Entry.renumbered f) := by
  rw [renumbered, OrderedMap.get?_filterMap]
  cases s.entries.get? name <;> rfl

theorem ext_get? {s t : Symbols} (hregistry : s.registry = t.registry)
    (h : ∀ name, s.entries.get? name = t.entries.get? name) : s = t := by
  cases s
  cases t
  cases hregistry
  cases OrderedMap.ext_get? h
  rfl

theorem variableSet_renumbered (s : Symbols) :
    (s.renumbered f).variableSet = s.variableSet := by
  have hbyName : (s.renumbered f).variableSet.byName = s.variableSet.byName := by
    refine OrderedMap.ext_get? fun name => ?_
    rw [variableSet, variableSet, OrderedMap.get?_filterMap, OrderedMap.get?_filterMap,
      get?_renumbered]
    cases s.entries.get? name <;> rfl
  exact (VariableSet.mk.injEq ..).mpr hbyName

theorem mention_of_get?_some {s : Symbols} {name : String} {e : Entry}
    (h : s.entries.get? name = some e) : s.mention name = (e.handle, s) := by
  have hmention := mention_of_mem (mem_of_get? h)
  rwa [s.keyed name e h] at hmention

theorem mention_of_get?_none {s : Symbols} {name : String} (h : s.entries.get? name = none) :
    (s.mention name).1 = (s.registry.freeInteger name).1
      ∧ (s.mention name).2.registry = (s.registry.freeInteger name).2 := by
  unfold mention
  split
  · rename_i e he
    rw [h] at he
    cases he
  · exact ⟨rfl, rfl⟩

theorem mention_renumbered (s : Symbols) (name : String) :
    (s.renumbered f).mention name = ((s.mention name).1, (s.mention name).2.renumbered f) := by
  have hget := s.get?_renumbered (f := f) name
  cases h : s.entries.get? name with
  | some e =>
      rw [h] at hget
      rw [mention_of_get?_some h, mention_of_get?_some hget]
      rfl
  | none =>
      rw [h] at hget
      obtain ⟨hhandle, hregistry⟩ := mention_of_get?_none h
      obtain ⟨hhandle', hregistry'⟩ := mention_of_get?_none hget
      rw [registry_renumbered] at hhandle' hregistry'
      have hsame : ((s.renumbered f).mention name).1 = (s.mention name).1 :=
        hhandle'.trans hhandle.symm
      refine Prod.ext hsame (ext_get? (hregistry'.trans hregistry.symm) fun n => ?_)
      rw [get?_renumbered, get?_mention, get?_mention, get?_renumbered, get?_renumbered, hsame, h]
      split <;> rfl

theorem note_renumbered (s : Symbols) (name : String) {g g' : Entry → Entry}
    (keeps : ∀ e, (g e).handle = e.handle) (keeps' : ∀ e, (g' e).handle = e.handle)
    (h : ∀ e, g' (e.renumbered f) = (g e).renumbered f) :
    (s.renumbered f).note name g' keeps' = (s.note name g keeps).renumbered f := by
  refine ext_get? rfl fun n => ?_
  rw [get?_renumbered, get?_note, get?_note, get?_renumbered, get?_renumbered]
  split
  · cases s.entries.get? name with
    | none => rfl
    | some e => exact congrArg some (h e)
  · rfl

theorem declareKind_renumbered (s : Symbols) (name : String) (kind : Kind) (line : Nat) :
    (s.renumbered f).declareKind name kind (f line)
      = (s.declareKind name kind line).renumbered f :=
  s.note_renumbered name _ _ fun _ => rfl

theorem declareBounds_renumbered (s : Symbols) (name : String) (lower upper : Option Float)
    (line : Nat) :
    (s.renumbered f).declareBounds name lower upper (f line)
      = (s.declareBounds name lower upper line).renumbered f := by
  rw [declareBounds, mention_renumbered]
  refine (s.mention name).2.note_renumbered name _ _ fun e => ?_
  obtain ⟨handle, kind, bounds⟩ := e
  cases bounds <;> rfl

theorem declareGuard_renumbered (s : Symbols) (line : Nat) (v : Variable) :
    declareGuard (f line) v (s.renumbered f) = (declareGuard line v s).renumbered f := by
  rw [declareGuard, declareGuard, ← declareKind_renumbered]
  rfl

theorem kindOf_renumbered (s : Symbols) (name : String) :
    (s.renumbered f).kindOf name = (s.kindOf name).map fun p => (p.1, f p.2) := by
  rw [kindOf, kindOf, get?_renumbered]
  cases s.entries.get? name <;> rfl

end Symbols

/-! ### Readings -/

/-- Whether a reading is the same as another one in a state with other
numbers. -/
def Renumbers (f : Nat → Nat) {K α : Type} (x y : Reading K α) : Prop :=
  ∀ s, y (s.renumbered f) = ((x s).1, (x s).2.renumbered f)

section

variable {f : Nat → Nat} {K α β : Type}

theorem renumbers_pure (a : α) : Renumbers f (pure a : Reading K α) (pure a) := fun _ => rfl

theorem renumbers_throw (e : ReadError K) :
    Renumbers f (throw e : Reading K α) (throw e) := fun _ => rfl

theorem renumbers_lift {δ : Type} (wrap : δ → ReadError K) (x : Except δ α) :
    Renumbers f (.lift wrap x : Reading K α) (.lift wrap x) := by
  cases x <;> exact fun _ => rfl

theorem renumbers_mention (name : String) :
    Renumbers f (mention name : Reading K Variable) (mention name) := by
  intro s
  show (Except.ok ((s.renumbered f).mention name).1, ((s.renumbered f).mention name).2) = _
  rw [s.mention_renumbered]
  rfl

theorem Renumbers.bind {x y : Reading K α} {g h : α → Reading K β} (hxy : Renumbers f x y)
    (hgh : ∀ a, Renumbers f (g a) (h a)) : Renumbers f (x >>= g) (y >>= h) := by
  intro s
  rw [Action.bind_apply, Action.bind_apply, hxy s]
  rcases x s with ⟨e | a, t⟩
  · rfl
  · exact hgh a t

variable [Scalar K]

theorem renumbers_factors (tokens : List (Token K)) (c : K) (v : Option Variable) (isOpen : Bool) :
    Renumbers f (factors c v isOpen tokens) (factors c v isOpen tokens) := by
  induction tokens generalizing c v isOpen with
  | nil =>
      rw [factors]
      split
      · exact renumbers_throw _
      · exact renumbers_pure _
  | cons t rest ih =>
      cases t with
      | number value => exact ih _ _ _
      | name name =>
          cases v with
          | some w => exact renumbers_throw _
          | none => exact (renumbers_mention name).bind fun w => ih _ _ _
      | star =>
          rw [factors]
          split
          · exact renumbers_throw _
          · exact ih _ _ _
      | plus => exact renumbers_throw _
      | minus => exact renumbers_throw _
      | colon => exact renumbers_throw _
      | arrow => exact renumbers_throw _
      | relation r => exact renumbers_throw _

theorem renumbers_addSummands (parts : List (Bool × List (Token K))) (t : Term K) :
    Renumbers f (addSummands t parts) (addSummands t parts) := by
  induction parts generalizing t with
  | nil => exact renumbers_pure t
  | cons p rest ih => exact (renumbers_factors p.2 1 none true).bind fun u => ih _

theorem renumbers_expression (tokens : List (Token K)) :
    Renumbers f (expression tokens) (expression tokens) := by
  rw [expression]
  split
  · exact renumbers_throw _
  · exact renumbers_addSummands _ _

end

section

variable {f : Nat → Nat}

theorem renumbers_objectiveTerm (text : List Char) :
    Renumbers f (Draft.objectiveTerm text) (Draft.objectiveTerm text) :=
  (renumbers_lift _ _).bind fun _ => renumbers_expression _

theorem renumbers_relation (tokens : List (Token Float)) :
    Renumbers f (relation tokens) (relation tokens) := by
  rw [relation]
  split
  · exact renumbers_throw _
  · exact (renumbers_expression _).bind fun _ => (renumbers_expression _).bind fun _ =>
      renumbers_lift _ _
  · refine (renumbers_expression _).bind fun lower => (renumbers_expression _).bind fun term =>
      (renumbers_expression _).bind fun upper => ?_
    split
    · exact renumbers_lift _ _
    · exact renumbers_throw _
  · exact renumbers_throw _

theorem renumbers_guard (line : Nat) (tokens : List (Token Float)) :
    Renumbers f (guard line tokens) (guard (f line) tokens) := by
  refine (renumbers_relation tokens).bind fun c => ?_
  split
  · rename_i v _
    have hdeclared : Renumbers f (.change (declareGuard line v) : Reading Float Unit)
        (.change (declareGuard (f line) v)) :=
      fun s => congrArg (Prod.mk _) (s.declareGuard_renumbered line v)
    exact hdeclared.bind fun _ => renumbers_pure c
  · exact renumbers_pure c

/-- A guard is attached by looking at the registry alone. -/
theorem renumbers_attach (c g : Constraint Float) : Renumbers f (attach c g) (attach c g) :=
  fun s => renumbers_lift .model (c.withIndicator s.registry g) s

theorem renumbers_constraintOf (line : Nat) (tokens : List (Token Float)) :
    Renumbers f (constraintOf line tokens) (constraintOf (f line) tokens) := by
  rw [constraintOf, constraintOf]
  rcases splitName tokens with ⟨name, body⟩
  dsimp only
  rcases splitArrow body with ⟨guardTokens, body⟩
  refine (renumbers_relation body).bind fun c => ?_
  cases guardTokens with
  | none => exact renumbers_pure _
  | some guardTokens =>
      exact (renumbers_guard line guardTokens).bind fun g => renumbers_attach _ g

end

end LinearProgram.LpText
