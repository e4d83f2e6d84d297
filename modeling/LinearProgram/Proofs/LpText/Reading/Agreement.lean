import LinearProgram.Proofs.LpText.Reading.Symbols

/-!
# `LinearProgram.Proofs.LpText.Reading.Agreement`: nothing but the truth is said

A written model says of its variables what is so: no name occurs that is
not the name of one of them, no kind is declared but the variable's own,
and no bounds are given but its own. What has been read of the text says
the same (`Symbols.AgreesWith`). This is kept by each statement by
itself, whatever came before, so that nothing has to be known about the
order of the statements or how often something is said.
-/

set_option autoImplicit false

namespace LinearProgram.LpText

/-- A lower bound as it can be seen in a text, where both zeros are one. -/
def writtenLower (x : Float) : Float := if x == 0 then 0 else x

/-- Whether what is said of a variable is so. -/
structure Entry.Suits (e : Entry) (a : Attributes) : Prop where
  kind : ∀ k line, e.kind = some (k, line) → a.kind = k
  bounds : ∀ b, e.bounds = some b → b.lower = writtenLower a.lower ∧ b.upper = a.upper

namespace Symbols

/-- Whether all that has been read is so of the variables of a set. -/
def AgreesWith (s : Symbols) (registry : Registry) (vars : VariableSet) : Prop :=
  ∀ name e, s.entries.get? name = some e →
    ∃ v ∈ vars, v.name = name ∧ e.Suits (registry.attributes v)

variable {s : Symbols} {registry : Registry} {vars : VariableSet}

theorem agreesWith_start (other : Registry) : (start other).AgreesWith registry vars :=
  fun _ _ he => by cases he

namespace AgreesWith

theorem mention (h : s.AgreesWith registry vars) {v : Variable} (hv : v ∈ vars) :
    (s.mention v.name).2.AgreesWith registry vars := by
  intro n e he
  rw [get?_mention] at he
  split at he
  · rename_i hn
    cases hget : s.entries.get? v.name with
    | some d =>
        rw [hget] at he
        rw [hn, ← Option.some.inj he]
        exact h v.name d hget
    | none =>
        rw [hget] at he
        rw [← Option.some.inj he]
        exact ⟨v, hv, hn.symm, nofun, nofun⟩
  · exact h n e he

/-- Something that is so may be said of a name. -/
theorem note (h : s.AgreesWith registry vars) {v : Variable} (hv : v ∈ vars)
    {f : Entry → Entry} {keeps : ∀ e, (f e).handle = e.handle}
    (hf : ∀ e, e.Suits (registry.attributes v) → (f e).Suits (registry.attributes v)) :
    (s.note v.name f keeps).AgreesWith registry vars := by
  intro n e he
  rw [get?_note] at he
  split at he
  · rename_i hn
    obtain ⟨d, hd, rfl⟩ := Option.map_eq_some_iff.mp he
    obtain ⟨w, hw, hname, hsuits⟩ := h v.name d hd
    rw [VariableSet.eq_of_name_eq hw hv hname] at hsuits
    exact ⟨v, hv, hn.symm, hf d hsuits⟩
  · exact h n e he

theorem declareKind (h : s.AgreesWith registry vars) {v : Variable} (hv : v ∈ vars) (line : Nat) :
    (s.declareKind v.name (registry.attributes v).kind line).AgreesWith registry vars := by
  refine h.note hv fun e he => ⟨fun k l hk => ?_, he.bounds⟩
  cases hk
  rfl

theorem declareGuard (h : s.AgreesWith registry vars) {v w : Variable} (hv : v ∈ vars)
    (hname : w.name = v.name) (hkind : (registry.attributes v).kind = .binary) (line : Nat) :
    (LpText.declareGuard line w s).AgreesWith registry vars := by
  have hupdate : (s.mapRegistry fun r => r.update w fun a =>
      { a with kind := .binary, lower := 0, upper := 1 }).AgreesWith registry vars := h
  have hdeclare := hupdate.declareKind hv line
  rwa [hkind, ← hname] at hdeclare

/-- Bounds may be given side by side. A side that is not given has to be
what is assumed of it. -/
theorem declareBounds (h : s.AgreesWith registry vars) {v : Variable} (hv : v ∈ vars)
    {lower upper : Option Float}
    (hlower : lower.getD 0 = writtenLower (registry.attributes v).lower)
    (hupper : upper.getD Binary64.infinity = (registry.attributes v).upper) (line : Nat) :
    (s.declareBounds v.name lower upper line).AgreesWith registry vars := by
  refine (h.mention hv).note hv fun e he => ⟨he.kind, fun b hb => ?_⟩
  rw [← Option.some.inj hb, updatedBounds]
  cases hbounds : e.bounds with
  | none =>
      constructor
      · rw [← hlower]
        rfl
      · rw [← hupper]
        rfl
  | some old =>
      -- A side that was given before was given as it is.
      obtain ⟨hlower', hupper'⟩ := he.bounds old hbounds
      constructor
      · cases lower with
        | none => exact hlower'
        | some l => exact hlower
      · cases upper with
        | none => exact hupper'
        | some u => exact hupper

end AgreesWith

/-- That a state agrees if the one before did. -/
theorem isReach_agreesWith (registry : Registry) (vars : VariableSet) :
    IsReach fun s s' => s.AgreesWith registry vars → s'.AgreesWith registry vars :=
  ⟨fun _ => id, fun h h' hs => h' (h hs)⟩

end Symbols

/-- Relations of known names say nothing that is not so. -/
theorem agreesWith_relation {registry : Registry} {vars : VariableSet}
    {tokens : List (Token Float)} (h : ∀ name, .name name ∈ tokens → ∃ v ∈ vars, v.name = name) :
    Leads (fun s s' => s.AgreesWith registry vars → s'.AgreesWith registry vars)
      (relation tokens) := by
  refine leads_relation (Symbols.isReach_agreesWith registry vars) fun name hname s hs => ?_
  obtain ⟨v, hv, rfl⟩ := h name hname
  exact hs.mention hv

theorem agreesWith_expression {registry : Registry} {vars : VariableSet}
    {tokens : List (Token Float)} (h : ∀ name, .name name ∈ tokens → ∃ v ∈ vars, v.name = name) :
    Leads (fun s s' => s.AgreesWith registry vars → s'.AgreesWith registry vars)
      (expression tokens) := by
  refine leads_expression (Symbols.isReach_agreesWith registry vars) fun name hname s hs => ?_
  obtain ⟨v, hv, rfl⟩ := h name hname
  exact hs.mention hv

end LinearProgram.LpText
