import LinearProgram.Proofs.LpText.Reading.Symbols

/-!
# `LinearProgram.Proofs.LpText.Reading.Settlement`: what variables are in the end

At the end of a text each variable is given the kind and the bounds that
its entry calls for, and these are checked. The variables have different
places in the registry, so that none of them disturbs another one.

* `settled` is what an entry calls for.
* `settle_spec`: the registry holds it for every variable, and the
  problems are those of the statements and those of the checks.
-/

set_option autoImplicit false

namespace LinearProgram.LpText

open Draft (finalKind finalBounds finalLine settleEntry)

/-- What an entry calls for in the end. -/
def settled (e : Entry) : Attributes :=
  .bounded (finalKind e) (finalBounds e).1 (finalBounds e).2

/-- What is wrong with what an entry calls for. -/
def settlementProblem? (e : Entry) : Option Problem :=
  match (settled e).check e.handle.name with
  | .ok () => none
  | .error error => some ⟨finalLine e, .model error⟩

/-- Whether attributes have the kind and the bounds of others. -/
structure HasValues (a b : Attributes) : Prop where
  kind : a.kind = b.kind
  lower : a.lower = b.lower
  upper : a.upper = b.upper

theorem HasValues.symm {a b : Attributes} (h : HasValues a b) : HasValues b a :=
  ⟨h.kind.symm, h.lower.symm, h.upper.symm⟩

theorem HasValues.trans {a b c : Attributes} (h : HasValues a b) (h' : HasValues b c) :
    HasValues a c := ⟨h.kind.trans h'.kind, h.lower.trans h'.lower, h.upper.trans h'.upper⟩

/-- Only the kind and the bounds of a variable are checked. -/
theorem HasValues.check_eq {a b : Attributes} (h : HasValues a b) (name : String) :
    a.check name = b.check name := by
  unfold Attributes.check
  rw [h.kind, h.lower, h.upper]

/-- Attributes with the kind and the bounds that an entry calls for. -/
def settle (e : Entry) (a : Attributes) : Attributes :=
  { a with kind := finalKind e, lower := (finalBounds e).1, upper := (finalBounds e).2 }

theorem hasValues_settle (e : Entry) (a : Attributes) : HasValues (settle e a) (settled e) :=
  ⟨rfl, rfl, rfl⟩

theorem settleEntry_eq {registry : Registry} {e : Entry} (h : e.handle.id < registry.size)
    (problems : List Problem) :
    settleEntry (registry, problems) e
      = (registry.update e.handle (settle e), problems ++ (settlementProblem? e).toList) := by
  have hvalidate : (registry.update e.handle (settle e)).validate e.handle
      = (settled e).check e.handle.name := by
    rw [Registry.validate, Registry.attributes_update h, if_pos rfl]
    rfl
  show (match (registry.update e.handle (settle e)).validate e.handle with
    | .ok () => (registry.update e.handle (settle e), problems)
    | .error error => (registry.update e.handle (settle e),
        problems ++ [Problem.mk (finalLine e) (.model error)])) = _
  rw [hvalidate, settlementProblem?]
  cases (settled e).check e.handle.name with
  | ok u => exact congrArg (Prod.mk _) (List.append_nil problems).symm
  | error error => rfl

/-- Settling entries at different places gives each of them what it
calls for, and leaves the other places alone. -/
theorem foldl_settleEntry {es : List Entry} {registry : Registry}
    (hrange : ∀ e ∈ es, e.handle.id < registry.size)
    (hdistinct : es.Pairwise fun e e' => e.handle.id ≠ e'.handle.id) (problems : List Problem) :
    ∃ registry', es.foldl settleEntry (registry, problems)
        = (registry', problems ++ es.filterMap settlementProblem?)
      ∧ (∀ e ∈ es, HasValues (registry'.attributes e.handle) (settled e))
      ∧ (∀ w : Variable, (∀ e ∈ es, w.id ≠ e.handle.id) →
        registry'.attributes w = registry.attributes w)
      ∧ registry'.size = registry.size := by
  induction es generalizing registry problems with
  | nil =>
      refine ⟨registry, ?_, fun e he => absurd he List.not_mem_nil, fun w _ => rfl, rfl⟩
      rw [List.filterMap_nil, List.append_nil]
      rfl
  | cons e es ih =>
      have he := hrange e (List.mem_cons_self ..)
      obtain ⟨hhead, hdistinct⟩ := List.pairwise_cons.mp hdistinct
      have hsize : (registry.update e.handle (settle e)).size = registry.size :=
        Array.size_modify ..
      obtain ⟨registry', heq, hvalues, hothers, hsize'⟩ := ih
        (fun d hd => hsize ▸ hrange d (List.mem_cons_of_mem _ hd)) hdistinct
        (problems ++ (settlementProblem? e).toList)
      refine ⟨registry', ?_, fun d hd => ?_, fun w hw => ?_, hsize'.trans hsize⟩
      · rw [List.foldl_cons, settleEntry_eq he, heq, List.append_assoc, List.filterMap_cons]
        cases settlementProblem? e <;> rfl
      · rcases List.mem_cons.mp hd with rfl | hd
        · rw [hothers _ hhead, Registry.attributes_update he, if_pos rfl]
          exact hasValues_settle _ _
        · exact hvalues d hd
      · rw [hothers w fun d hd => hw d (List.mem_cons_of_mem _ hd), Registry.attributes_update he,
          if_neg (hw e (List.mem_cons_self ..))]

theorem mem_values_iff {s : Symbols} {e : Entry} :
    e ∈ s.entries.values ↔ ∃ name, s.entries.get? name = some e := by
  rw [OrderedMap.values, List.mem_map]
  constructor
  · rintro ⟨⟨name, d⟩, hmem, rfl⟩
    exact ⟨name, OrderedMap.mem_toList_iff.mp hmem⟩
  · rintro ⟨name, he⟩
    exact ⟨(name, e), OrderedMap.mem_toList_iff.mpr he, rfl⟩

/-- The entries of different names have different places. -/
theorem Symbols.IsSound.distinct_values {s : Symbols} (h : s.IsSound) :
    s.entries.values.Pairwise fun e e' => e.handle.id ≠ e'.handle.id := by
  rw [OrderedMap.values, List.pairwise_map]
  refine s.entries.ascending.imp_of_mem fun {p q} hp hq hlt hid => ?_
  have hp := OrderedMap.mem_toList_iff.mp hp
  have hq := OrderedMap.mem_toList_iff.mp hq
  have heq := h.distinct _ (mem_of_get? hp) _ (mem_of_get? hq) hid
  rw [← s.keyed _ _ hp, ← s.keyed _ _ hq, heq] at hlt
  exact StrictKey.irrefl _ hlt

/-- What a text says in the end. No variable is created or taken away. -/
theorem settle_spec {d : Draft} (h : d.symbols.IsSound) :
    ∃ registry, d.settle
        = (⟨⟨d.objective.getD .zero, d.constraints⟩, d.symbols.variableSet,
            d.problems ++ d.symbols.entries.values.filterMap settlementProblem?⟩, registry)
      ∧ (∀ name e, d.symbols.entries.get? name = some e →
        HasValues (registry.attributes e.handle) (settled e))
      ∧ registry.size = d.symbols.registry.size := by
  have hrange : ∀ e ∈ d.symbols.entries.values, e.handle.id < d.symbols.registry.size := by
    intro e he
    obtain ⟨name, he⟩ := mem_values_iff.mp he
    exact h.inRange _ (Symbols.mem_of_get? he)
  obtain ⟨registry, heq, hvalues, _, hsize⟩ :=
    foldl_settleEntry hrange h.distinct_values d.problems
  refine ⟨registry, ?_, fun name e he => hvalues e (mem_values_iff.mpr ⟨name, he⟩), hsize⟩
  rw [Draft.settle, heq]

end LinearProgram.LpText
