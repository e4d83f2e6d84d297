import LinearProgram.LpText.Document
import LinearProgram.Proofs.Model.Occurrence

/-!
# `LinearProgram.Proofs.LpText.Reading.Symbols`: how the names of a text grow

Whatever is read, and whether it can be read or not, the names that have
occurred keep their variables, what was said of them stays said, and
different names have different variables in the registry.

* `Symbols.IsSound` is the invariant, `Symbols.Grows` what a later state
  has of an earlier one. Both are settled for the four changes of
  `Symbols` once: `grows_mention`, `grows_note` and its two uses, and
  `grows_declareGuard`.
* `Leads` says that a reading only leads to states in a given relation
  to the one where it began. It is proved for every relation that holds
  where a name is mentioned, so that it can be used with `Grows` and
  with relations that are about particular texts.
-/

set_option autoImplicit false

namespace LinearProgram.LpText

/-- What an entry has of an earlier one: the variable, whether a kind
and bounds are given, and that it is binary. -/
structure Entry.Grows (e e' : Entry) : Prop where
  handle : e'.handle = e.handle
  kind : ∀ k line, e.kind = some (k, line) →
    ∃ k' line', e'.kind = some (k', line') ∧ (k = .binary → k' = .binary)
  bounds : e.bounds.isSome = true → e'.bounds.isSome = true

theorem Entry.Grows.refl (e : Entry) : e.Grows e :=
  ⟨rfl, fun k line h => ⟨k, line, h, id⟩, id⟩

theorem Entry.Grows.trans {e e' e'' : Entry} (h : e.Grows e') (h' : e'.Grows e'') :
    e.Grows e'' := by
  refine ⟨h'.handle.trans h.handle, fun k line hk => ?_, fun hb => h'.bounds (h.bounds hb)⟩
  obtain ⟨k', line', hk', hbinary⟩ := h.kind k line hk
  obtain ⟨k'', line'', hk'', hbinary'⟩ := h'.kind k' line' hk'
  exact ⟨k'', line'', hk'', fun heq => hbinary' (hbinary heq)⟩

namespace Symbols

variable {s s' s'' : Symbols}

theorem mem_variableSet_iff {v : Variable} :
    v ∈ s.variableSet ↔ ∃ e, s.entries.get? v.name = some e ∧ e.handle = v := by
  rw [VariableSet.mem_iff]
  show (s.entries.filterMap fun e => some e.handle).get? v.name = some v ↔ _
  rw [OrderedMap.get?_filterMap, Option.bind_eq_some_iff]
  constructor
  · rintro ⟨e, he, heq⟩
    exact ⟨e, he, Option.some.inj heq⟩
  · rintro ⟨e, he, heq⟩
    exact ⟨e, he, congrArg some heq⟩

theorem mem_of_get? {name : String} {e : Entry} (h : s.entries.get? name = some e) :
    e.handle ∈ s.variableSet := by
  refine mem_variableSet_iff.mpr ⟨e, ?_, rfl⟩
  rw [s.keyed name e h]
  exact h

/-- Whether the variables of a text are in the registry, each of them at
its own place. -/
structure IsSound (s : Symbols) : Prop where
  inRange : ∀ v ∈ s.variableSet, v.id < s.registry.size
  distinct : ∀ v ∈ s.variableSet, ∀ w ∈ s.variableSet, v.id = w.id → v = w

/-- What a state has of an earlier one. -/
structure Grows (s s' : Symbols) : Prop where
  sound : s.IsSound → s'.IsSound
  entry : ∀ name e, s.entries.get? name = some e →
    ∃ e', s'.entries.get? name = some e' ∧ e.Grows e'

namespace Grows

theorem refl (s : Symbols) : s.Grows s := ⟨id, fun _ e h => ⟨e, h, .refl e⟩⟩

theorem trans (h : s.Grows s') (h' : s'.Grows s'') : s.Grows s'' := by
  refine ⟨fun hs => h'.sound (h.sound hs), fun name e he => ?_⟩
  obtain ⟨e', he', hgrows⟩ := h.entry name e he
  obtain ⟨e'', he'', hgrows'⟩ := h'.entry name e' he'
  exact ⟨e'', he'', hgrows.trans hgrows'⟩

/-- A variable of the text stays one. -/
theorem mem (h : s.Grows s') {v : Variable} (hv : v ∈ s.variableSet) : v ∈ s'.variableSet := by
  obtain ⟨e, he, rfl⟩ := mem_variableSet_iff.mp hv
  obtain ⟨e', he', hgrows⟩ := h.entry _ e he
  exact mem_variableSet_iff.mpr ⟨e', he', hgrows.handle⟩

end Grows

/-- Nothing is unsound at the start. -/
theorem isSound_start (registry : Registry) : (start registry).IsSound := by
  have hempty : ∀ v, ¬ v ∈ (start registry).variableSet := by
    intro v hv
    obtain ⟨e, he, _⟩ := mem_variableSet_iff.mp hv
    cases he
  exact ⟨fun v hv => absurd hv (hempty v), fun v hv => absurd hv (hempty v)⟩

/-! ### Mentioning a name -/

theorem name_mention (s : Symbols) (name : String) : (s.mention name).1.name = name := by
  unfold mention
  split
  · rename_i e he
    exact s.keyed name e he
  · rfl

/-- The entries after a name has been mentioned. -/
theorem get?_mention (s : Symbols) (name n : String) :
    (s.mention name).2.entries.get? n
      = if n = name then
          some ((s.entries.get? name).getD ⟨(s.mention name).1, none, none⟩)
        else s.entries.get? n := by
  unfold mention
  split
  · rename_i e he
    by_cases hn : n = name
    · subst hn
      rw [if_pos rfl, he]
      rfl
    · rw [if_neg hn]
  · rename_i hnone
    rw [hnone, Option.getD_none]
    exact OrderedMap.get?_insert ..

theorem handle_mention (s : Symbols) (name : String) :
    ((s.entries.get? name).getD ⟨(s.mention name).1, none, none⟩).handle = (s.mention name).1 := by
  unfold mention
  split
  · rename_i e he
    rw [he]
    rfl
  · rename_i hnone
    rw [hnone]
    rfl

/-- The variables after a name has been mentioned. -/
theorem mem_mention_iff {name : String} {v : Variable} :
    v ∈ (s.mention name).2.variableSet ↔ v ∈ s.variableSet ∨ v = (s.mention name).1 := by
  rw [mem_variableSet_iff, mem_variableSet_iff, get?_mention]
  by_cases hn : v.name = name
  · rw [if_pos hn]
    constructor
    · rintro ⟨e, he, rfl⟩
      rw [← Option.some.inj he, handle_mention]
      exact .inr rfl
    · intro h
      refine ⟨_, rfl, ?_⟩
      rw [handle_mention]
      rcases h with ⟨e, he, rfl⟩ | h
      · rw [hn] at he
        unfold mention
        split
        · rename_i d hd
          rw [he] at hd
          rw [Option.some.inj hd]
        · rename_i hnone
          rw [he] at hnone
          cases hnone
      · exact h.symm
  · rw [if_neg hn]
    constructor
    · exact .inl
    · rintro (h | h)
      · exact h
      · rw [h, name_mention] at hn
        exact absurd rfl hn

theorem mem_mention (s : Symbols) (name : String) :
    (s.mention name).1 ∈ (s.mention name).2.variableSet := mem_mention_iff.mpr (.inr rfl)

/-- A variable of the text is what its name stands for. -/
theorem mention_of_mem {v : Variable} (h : v ∈ s.variableSet) : s.mention v.name = (v, s) := by
  obtain ⟨e, he, heq⟩ := mem_variableSet_iff.mp h
  unfold mention
  split
  · rename_i d hd
    rw [he] at hd
    rw [← Option.some.inj hd, heq]
  · rename_i hnone
    rw [he] at hnone
    cases hnone

/-- A name is known, or its variable is created behind all others. -/
theorem mention_cases (s : Symbols) (name : String) :
    (∃ v ∈ s.variableSet, s.mention name = (v, s))
      ∨ (s.mention name).1.id = s.registry.size
        ∧ (s.mention name).2.registry.size = s.registry.size + 1 := by
  cases hget : s.entries.get? name with
  | some e =>
      refine .inl ⟨e.handle, mem_of_get? hget, ?_⟩
      have hname := s.keyed name e hget
      have hmention := mention_of_mem (mem_of_get? hget)
      rwa [hname] at hmention
  | none =>
      refine .inr ?_
      unfold mention
      split
      · rename_i e he
        rw [hget] at he
        cases he
      · exact ⟨rfl, Array.size_push _⟩

theorem isSound_mention (h : s.IsSound) (name : String) : (s.mention name).2.IsSound := by
  rcases s.mention_cases name with ⟨v, _, heq⟩ | ⟨hid, hsize⟩
  · rw [heq]
    exact h
  · refine ⟨fun v hv => ?_, fun v hv w hw heq => ?_⟩
    · rcases mem_mention_iff.mp hv with hv | rfl
      · have := h.inRange v hv
        omega
      · omega
    · rcases mem_mention_iff.mp hv with hv | rfl <;> rcases mem_mention_iff.mp hw with hw | rfl
      · exact h.distinct v hv w hw heq
      · have := h.inRange v hv
        omega
      · have := h.inRange w hw
        omega
      · rfl

theorem grows_mention (s : Symbols) (name : String) : s.Grows (s.mention name).2 := by
  refine ⟨fun h => isSound_mention h name, fun n e he => ?_⟩
  rw [get?_mention]
  by_cases hn : n = name
  · rw [if_pos hn, ← hn, he]
    exact ⟨e, rfl, .refl e⟩
  · rw [if_neg hn]
    exact ⟨e, he, .refl e⟩

/-! ### Saying something of a name -/

theorem get?_note (s : Symbols) (name : String) (f : Entry → Entry)
    (keeps : ∀ e, (f e).handle = e.handle) (n : String) :
    (s.note name f keeps).entries.get? n
      = if n = name then (s.entries.get? name).map f else s.entries.get? n :=
  OrderedMap.get?_alter ..

theorem mem_note_iff {name : String} {f : Entry → Entry} {keeps : ∀ e, (f e).handle = e.handle}
    {v : Variable} : v ∈ (s.note name f keeps).variableSet ↔ v ∈ s.variableSet := by
  rw [mem_variableSet_iff, mem_variableSet_iff, get?_note]
  by_cases hn : v.name = name
  · rw [if_pos hn, hn]
    constructor
    · rintro ⟨e, he, heq⟩
      obtain ⟨d, hd, rfl⟩ := Option.map_eq_some_iff.mp he
      exact ⟨d, hd, (keeps d).symm.trans heq⟩
    · rintro ⟨e, he, heq⟩
      exact ⟨f e, by rw [he]; rfl, (keeps e).trans heq⟩
  · rw [if_neg hn]

theorem isSound_note (h : s.IsSound) (name : String) (f : Entry → Entry)
    (keeps : ∀ e, (f e).handle = e.handle) : (s.note name f keeps).IsSound :=
  ⟨fun v hv => h.inRange v (mem_note_iff.mp hv),
    fun v hv w hw => h.distinct v (mem_note_iff.mp hv) w (mem_note_iff.mp hw)⟩

theorem grows_note {name : String} {f : Entry → Entry} {keeps : ∀ e, (f e).handle = e.handle}
    (h : ∀ e, s.entries.get? name = some e → e.Grows (f e)) : s.Grows (s.note name f keeps) := by
  refine ⟨fun hs => isSound_note hs name f keeps, fun n e he => ?_⟩
  rw [get?_note]
  by_cases hn : n = name
  · rw [hn] at he
    rw [if_pos hn, he]
    exact ⟨f e, rfl, h e he⟩
  · rw [if_neg hn]
    exact ⟨e, he, .refl e⟩

/-- A kind may be declared unless it takes the place of binary. -/
theorem grows_declareKind {name : String} {kind : Kind} (line : Nat)
    (h : ∀ e old, s.entries.get? name = some e → e.kind = some (.binary, old) → kind = .binary) :
    s.Grows (s.declareKind name kind line) := by
  refine grows_note fun e he => ⟨rfl, fun k old hk => ⟨kind, line, rfl, ?_⟩, id⟩
  rintro rfl
  exact h e old he hk

theorem grows_declareBounds (s : Symbols) (name : String) (lower upper : Option Float)
    (line : Nat) : s.Grows (s.declareBounds name lower upper line) :=
  (grows_mention s name).trans
    (grows_note fun _ _ => ⟨rfl, fun k old hk => ⟨k, old, hk, id⟩, fun _ => rfl⟩)

theorem grows_update (s : Symbols) (v : Variable) (f : Attributes → Attributes) :
    s.Grows (s.mapRegistry fun r => r.update v f) := by
  refine ⟨fun h => ⟨fun w hw => ?_, h.distinct⟩, fun _ e he => ⟨e, he, .refl e⟩⟩
  show w.id < (s.registry.update v f).size
  rw [Registry.size, Registry.update, Array.size_modify]
  exact h.inRange w hw

theorem grows_declareGuard (s : Symbols) (line : Nat) (v : Variable) :
    s.Grows (declareGuard line v s) :=
  (grows_update s v _).trans (grows_declareKind line fun _ _ _ _ => rfl)

end Symbols

/-! ### Readings -/

/-- A relation between the states before and after. -/
structure IsReach (R : Symbols → Symbols → Prop) : Prop where
  refl : ∀ s, R s s
  trans : ∀ {s s' s''}, R s s' → R s' s'' → R s s''

theorem isReach_grows : IsReach Symbols.Grows := ⟨.refl, .trans⟩

/-- Whether a reading, failing or not, leads only to states that are
related to the one where it began. -/
def Leads (R : Symbols → Symbols → Prop) {K α : Type} (x : Reading K α) : Prop :=
  ∀ s, R s (x s).2

section

variable {K α β : Type} {R : Symbols → Symbols → Prop} (hR : IsReach R)

include hR

theorem leads_pure (a : α) : Leads R (pure a : Reading K α) := hR.refl

theorem leads_throw (e : ReadError K) : Leads R (throw e : Reading K α) := hR.refl

theorem leads_lift {δ : Type} (wrap : δ → ReadError K) (x : Except δ α) :
    Leads R (.lift wrap x : Reading K α) := by
  cases x with
  | ok a => exact hR.refl
  | error e => exact hR.refl

theorem Leads.bind {x : Reading K α} {f : α → Reading K β} (hx : Leads R x)
    (hf : ∀ a, Leads R (f a)) : Leads R (x >>= f) := by
  intro s
  have hfirst := hx s
  rw [Action.bind_apply]
  split
  · rename_i a s' heq
    rw [heq] at hfirst
    exact hR.trans hfirst (hf a s')
  · rename_i e s' heq
    rw [heq] at hfirst
    exact hfirst

variable [Scalar K]

theorem leads_factors {tokens : List (Token K)}
    (h : ∀ name, .name name ∈ tokens → ∀ s : Symbols, R s (s.mention name).2) (c : K)
    (v : Option Variable) (isOpen : Bool) : Leads R (factors c v isOpen tokens) := by
  induction tokens generalizing c v isOpen with
  | nil =>
      rw [factors]
      split
      · exact leads_throw hR _
      · exact leads_pure hR _
  | cons t rest ih =>
      have ih := ih fun name hname => h name (List.mem_cons_of_mem _ hname)
      cases t with
      | number value => exact ih _ _ _
      | name name =>
          cases v with
          | some w => exact leads_throw hR _
          | none => exact Leads.bind hR (h name (List.mem_cons_self ..)) fun w => ih _ _ _
      | star =>
          rw [factors]
          split
          · exact leads_throw hR _
          · exact ih _ _ _
      | plus => exact leads_throw hR _
      | minus => exact leads_throw hR _
      | colon => exact leads_throw hR _
      | arrow => exact leads_throw hR _
      | relation r => exact leads_throw hR _

theorem leads_addSummands {parts : List (Bool × List (Token K))}
    (h : ∀ p ∈ parts, ∀ name, .name name ∈ p.2 → ∀ s : Symbols, R s (s.mention name).2)
    (t : Term K) : Leads R (addSummands t parts) := by
  induction parts generalizing t with
  | nil => exact leads_pure hR t
  | cons p rest ih =>
      exact Leads.bind hR (leads_factors hR (h p (List.mem_cons_self ..)) _ _ _) fun u =>
        ih (fun q hq => h q (List.mem_cons_of_mem _ hq)) _

end

/-- The monomials of tokens have no others. -/
theorem mem_of_mem_summands {K : Type} [Scalar K] {negative : Bool} {before tokens : List (Token K)}
    {p : Bool × List (Token K)} (hp : p ∈ summands negative before tokens) {t : Token K}
    (ht : t ∈ p.2) : t ∈ before ∨ t ∈ tokens := by
  induction tokens generalizing negative before with
  | nil =>
      rw [List.mem_singleton.mp hp] at ht
      exact .inl ht
  | cons u rest ih =>
      -- A sign ends a monomial or begins the first one; any other token joins one.
      have hsign : ∀ b, (p ∈ if before.isEmpty then summands b [] rest
          else (negative, before) :: summands b [] rest) → t ∈ before ∨ t ∈ u :: rest := by
        intro b hmem
        have hrest : p ∈ summands b [] rest → t ∈ before ∨ t ∈ u :: rest := by
          intro hmem
          rcases ih hmem with h | h
          · cases h
          · exact .inr (List.mem_cons_of_mem _ h)
        split at hmem
        · exact hrest hmem
        · rcases List.mem_cons.mp hmem with rfl | hmem
          · exact .inl ht
          · exact hrest hmem
      have hjoin : p ∈ summands negative (before ++ [u]) rest → t ∈ before ∨ t ∈ u :: rest := by
        intro hmem
        rcases ih hmem with h | h
        · rcases List.mem_append.mp h with h | h
          · exact .inl h
          · rw [List.mem_singleton.mp h]
            exact .inr (List.mem_cons_self ..)
        · exact .inr (List.mem_cons_of_mem _ h)
      cases u with
      | plus =>
          rw [summands] at hp
          split at hp
          · exact hsign negative (by rw [if_pos ‹_›]; exact hp)
          · exact hsign false (by rw [if_neg ‹_›]; exact hp)
      | minus =>
          rw [summands] at hp
          split at hp
          · exact hsign (!negative) (by rw [if_pos ‹_›]; exact hp)
          · exact hsign true (by rw [if_neg ‹_›]; exact hp)
      | number value => exact hjoin hp
      | name name => exact hjoin hp
      | star => exact hjoin hp
      | colon => exact hjoin hp
      | arrow => exact hjoin hp
      | relation r => exact hjoin hp

/-- The sides of a statement have no other tokens. -/
theorem mem_of_mem_sides {K : Type} {tokens : List (Token K)} {t : Token K} :
    (t ∈ (sides tokens).1 → t ∈ tokens)
      ∧ ∀ p ∈ (sides tokens).2, t ∈ p.2 → t ∈ tokens := by
  induction tokens with
  | nil => exact ⟨id, fun p hp => absurd hp List.not_mem_nil⟩
  | cons u rest ih =>
      have hjoin : (t ∈ u :: (sides rest).1 → t ∈ u :: rest)
          ∧ ∀ p ∈ (sides rest).2, t ∈ p.2 → t ∈ u :: rest := by
        refine ⟨fun h => ?_, fun p hp ht => List.mem_cons_of_mem _ (ih.2 p hp ht)⟩
        rcases List.mem_cons.mp h with rfl | h
        · exact List.mem_cons_self ..
        · exact List.mem_cons_of_mem _ (ih.1 h)
      cases u with
      | relation r =>
          refine ⟨fun h => absurd h List.not_mem_nil, fun p hp ht => ?_⟩
          rcases List.mem_cons.mp hp with rfl | hp
          · exact List.mem_cons_of_mem _ (ih.1 ht)
          · exact List.mem_cons_of_mem _ (ih.2 p hp ht)
      | number value => exact hjoin
      | name name => exact hjoin
      | plus => exact hjoin
      | minus => exact hjoin
      | star => exact hjoin
      | colon => exact hjoin
      | arrow => exact hjoin

/-- The tokens behind a name and a colon are no others. -/
theorem mem_of_mem_splitName {K : Type} {tokens : List (Token K)} {t : Token K}
    (h : t ∈ (splitName tokens).2) : t ∈ tokens := by
  unfold splitName at h
  split at h
  · exact List.mem_cons_of_mem _ (List.mem_cons_of_mem _ h)
  · exact h

/-- The tokens before and behind an arrow are no others. -/
theorem mem_of_mem_splitArrow {K : Type} {tokens : List (Token K)} {t : Token K} :
    (∀ before, (splitArrow tokens).1 = some before → t ∈ before → t ∈ tokens)
      ∧ (t ∈ (splitArrow tokens).2 → t ∈ tokens) := by
  induction tokens with
  | nil => exact ⟨nofun, id⟩
  | cons u rest ih =>
      by_cases harrow : u = .arrow
      · subst harrow
        refine ⟨fun before heq ht => ?_, List.mem_cons_of_mem _⟩
        cases heq
        cases ht
      · rw [splitArrow]
        · split
          · rename_i before behind heq
            rw [heq] at ih
            refine ⟨fun before' heq' ht => ?_, fun ht => List.mem_cons_of_mem _ (ih.2 ht)⟩
            cases heq'
            rcases List.mem_cons.mp ht with rfl | ht
            · exact List.mem_cons_self ..
            · exact List.mem_cons_of_mem _ (ih.1 before rfl ht)
          · rename_i all heq
            rw [heq] at ih
            refine ⟨nofun, fun ht => ?_⟩
            rcases List.mem_cons.mp ht with rfl | ht
            · exact List.mem_cons_self ..
            · exact List.mem_cons_of_mem _ (ih.2 ht)
        · exact harrow

/-- What a constraint is read from: the tokens behind its name and its
guard, then those of the guard. -/
theorem constraintOf_eq (line : Nat) (tokens : List (Token Float)) :
    constraintOf line tokens = (do
      let c ← relation (splitArrow (splitName tokens).2).2
      match (splitArrow (splitName tokens).2).1 with
      | none => pure (nameAs c (splitName tokens).1)
      | some guardTokens => do
        let g ← guard line guardTokens
        attach (nameAs c (splitName tokens).1) g) := rfl

section

variable {R : Symbols → Symbols → Prop} (hR : IsReach R)

include hR

theorem leads_expression {K : Type} [Scalar K] {tokens : List (Token K)}
    (h : ∀ name, .name name ∈ tokens → ∀ s : Symbols, R s (s.mention name).2) :
    Leads R (expression tokens) := by
  rw [expression]
  split
  · exact leads_throw hR _
  · refine leads_addSummands hR (fun p hp name hname => ?_) _
    rcases mem_of_mem_summands hp hname with hmem | hmem
    · cases hmem
    · exact h name hmem

theorem leads_relation {tokens : List (Token Float)}
    (h : ∀ name, .name name ∈ tokens → ∀ s : Symbols, R s (s.mention name).2) :
    Leads R (relation tokens) := by
  have hexpression : ∀ ts : List (Token Float), (∀ t ∈ ts, t ∈ tokens) →
      Leads R (expression ts) :=
    fun ts hts => leads_expression hR fun name hname => h name (hts _ hname)
  have hfirst : ∀ t ∈ (sides tokens).1, t ∈ tokens := fun t => mem_of_mem_sides.1
  have hothers : ∀ p ∈ (sides tokens).2, ∀ t ∈ p.2, t ∈ tokens :=
    fun p hp t => mem_of_mem_sides.2 p hp
  rw [relation]
  split
  · exact leads_throw hR _
  · rename_i lhs r rhs heq
    rw [heq] at hfirst hothers
    refine Leads.bind hR (hexpression _ hfirst) fun u => Leads.bind hR (hexpression _ ?_) fun w => ?_
    · exact hothers (r, rhs) (List.mem_singleton_self _)
    · exact leads_lift hR _ _
  · rename_i lower l middle r upper heq
    rw [heq] at hfirst hothers
    refine Leads.bind hR (hexpression _ hfirst) fun u => Leads.bind hR (hexpression _ ?_) fun w =>
      Leads.bind hR (hexpression _ ?_) fun x => ?_
    · exact hothers (l, middle) (List.mem_cons_self ..)
    · exact hothers (r, upper) (List.mem_cons_of_mem _ (List.mem_singleton_self _))
    · split
      · exact leads_lift hR _ _
      · exact leads_throw hR _
  · exact leads_throw hR _

theorem leads_guard {tokens : List (Token Float)}
    (h : ∀ name, .name name ∈ tokens → ∀ s : Symbols, R s (s.mention name).2)
    (hguard : ∀ line v s, R s (declareGuard line v s)) (line : Nat) :
    Leads R (guard line tokens) := by
  refine Leads.bind hR (leads_relation hR h) fun c => ?_
  split
  · rename_i v _
    exact Leads.bind hR (hguard line v) fun _ => leads_pure hR _
  · exact leads_pure hR _

theorem leads_constraintOf {tokens : List (Token Float)}
    (h : ∀ name, .name name ∈ tokens → ∀ s : Symbols, R s (s.mention name).2)
    (hguard : ∀ line v s, R s (declareGuard line v s)) (line : Nat) :
    Leads R (constraintOf line tokens) := by
  have hbehind := fun t (ht : t ∈ (splitName tokens).2) => mem_of_mem_splitName ht
  have hsplit := fun t => @mem_of_mem_splitArrow Float (splitName tokens).2 t
  rw [constraintOf_eq]
  refine Leads.bind hR (leads_relation hR fun name hname =>
    h name (hbehind _ ((hsplit _).2 hname))) fun c => ?_
  split
  · exact leads_pure hR _
  · rename_i guardTokens heq
    refine Leads.bind hR (leads_guard hR (fun name hname =>
      h name (hbehind _ ((hsplit _).1 guardTokens heq hname))) hguard line) fun g s => ?_
    exact leads_lift hR _ _ s

end

/-- Whatever a statement says, names keep their variables and what was
said of them. -/
theorem grows_expression {K : Type} [Scalar K] (tokens : List (Token K)) :
    Leads Symbols.Grows (expression tokens) :=
  leads_expression isReach_grows fun name _ s => s.grows_mention name

theorem grows_relation (tokens : List (Token Float)) : Leads Symbols.Grows (relation tokens) :=
  leads_relation isReach_grows fun name _ s => s.grows_mention name

theorem grows_guard (line : Nat) (tokens : List (Token Float)) :
    Leads Symbols.Grows (guard line tokens) :=
  leads_guard isReach_grows (fun name _ s => s.grows_mention name)
    (fun line v s => s.grows_declareGuard line v) line

theorem grows_constraintOf (line : Nat) (tokens : List (Token Float)) :
    Leads Symbols.Grows (constraintOf line tokens) :=
  leads_constraintOf isReach_grows (fun name _ s => s.grows_mention name)
    (fun line v s => s.grows_declareGuard line v) line

theorem grows_constraintStatement (statement : Numbered) :
    Leads Symbols.Grows (constraintStatement statement) :=
  Leads.bind isReach_grows (leads_lift isReach_grows _ _) fun _ => grows_constraintOf _ _

theorem grows_objectiveTerm (text : List Char) :
    Leads Symbols.Grows (Draft.objectiveTerm text) :=
  Leads.bind isReach_grows (leads_lift isReach_grows _ _) fun _ => grows_expression _

theorem grows_boundStatement (statement : Numbered) :
    Leads Symbols.Grows (boundStatement statement) :=
  Leads.bind isReach_grows (leads_lift isReach_grows _ _) fun _ =>
    Leads.bind isReach_grows (leads_lift isReach_grows _ _) fun clause s =>
      s.grows_declareBounds clause.name clause.lower clause.upper statement.line

end LinearProgram.LpText
