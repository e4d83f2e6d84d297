import LinearProgram.Proofs.LpText.Reading.Lines
import LinearProgram.Proofs.LpText.Reading.Settlement

/-!
# `LinearProgram.Proofs.LpText.Reading.Documents`: reading models back

The text of a model is read statement by statement. `Draft.IsFaithful`
is what holds of the draft all the time: nothing is reported, and
nothing has been said that is not so. A section adds what its
statements say (`foldl_statements`, `foldl_constraints`), and nothing of
this is lost later.

* `IsRestoredDraft` is the draft at the end of the text.
* `IsRestoredDocument` is what the document has of the model, and
  `read_write` that it is what the text is read as: no problem is
  reported, terms and constraints are the same up to handles, and every
  variable that the text mentions has its kind and its bounds.
-/

set_option autoImplicit false

namespace LinearProgram.LpText

/-! ### Drafts -/

namespace Draft

/-- What holds of a draft while the text of a model is read: nothing is
reported, and what has been said is so. -/
structure IsFaithful (registry : Registry) (vars : VariableSet) (d : Draft) : Prop where
  sound : d.symbols.IsSound
  agrees : d.symbols.AgreesWith registry vars
  problems : d.problems = []

/-- Whether a later draft differs in what is said of variables only. -/
structure Keeps (d d' : Draft) : Prop where
  objective : d'.objective = d.objective
  constraints : d'.constraints = d.constraints
  grows : d.symbols.Grows d'.symbols

theorem Keeps.refl (d : Draft) : d.Keeps d := ⟨rfl, rfl, .refl _⟩

theorem Keeps.trans {d d' d'' : Draft} (h : d.Keeps d') (h' : d'.Keeps d'') : d.Keeps d'' :=
  ⟨h'.objective.trans h.objective, h'.constraints.trans h.constraints, h.grows.trans h'.grows⟩

theorem attempt_ok {α : Type} {d : Draft} {line : Nat} {reading : Reading Float α}
    {keep : Draft → α → Draft} {a : α} {s : Symbols} (h : reading d.symbols = (.ok a, s)) :
    d.attempt line reading keep = keep { d with symbols := s } a := by
  rw [attempt, h]

variable {registry : Registry} {vars : VariableSet}

/-- A state of the symbols that is said to be so. -/
theorem IsFaithful.withSymbols {d : Draft} (h : d.IsFaithful registry vars) {s : Symbols}
    (hgrows : d.symbols.Grows s) (hagrees : s.AgreesWith registry vars) :
    IsFaithful registry vars { d with symbols := s } ∧ d.Keeps { d with symbols := s } :=
  ⟨⟨hgrows.sound h.sound, hagrees, h.problems⟩, rfl, rfl, hgrows⟩

/-- The statements of a section, at most one for each variable of a
list. If each of them achieves something for its variable that is not
lost later, all of it is achieved in the end. -/
theorem foldl_statements {place : Section} (text : Variable → Option (List Char))
    (Q : Variable → Symbols → Prop) (hQ : ∀ v s s', s.Grows s' → Q v s → Q v s')
    {L : List Variable}
    (hstep : ∀ v ∈ L, ∀ t, text v = some t → ∀ line (d : Draft), d.IsFaithful registry vars →
      (d.takeStatement place ⟨line, t⟩).IsFaithful registry vars
        ∧ d.Keeps (d.takeStatement place ⟨line, t⟩)
        ∧ Q v (d.takeStatement place ⟨line, t⟩).symbols)
    (first : Nat) {d : Draft} (h : d.IsFaithful registry vars) :
    ∃ d', (statements place first (L.filterMap text)).foldl take d = d'
      ∧ d'.IsFaithful registry vars ∧ d.Keeps d'
      ∧ ∀ v ∈ L, (text v).isSome = true → Q v d'.symbols := by
  induction L generalizing first d with
  | nil => exact ⟨d, rfl, h, .refl d, fun v hv => absurd hv List.not_mem_nil⟩
  | cons v L ih =>
      have ih := @ih fun w hw => hstep w (List.mem_cons_of_mem _ hw)
      rw [List.filterMap_cons]
      cases ht : text v with
      | none =>
          obtain ⟨d', heq, hd', hkeeps, hall⟩ := ih first h
          refine ⟨d', heq, hd', hkeeps, fun w hw hsome => ?_⟩
          rcases List.mem_cons.mp hw with rfl | hw
          · rw [ht] at hsome
            cases hsome
          · exact hall w hw hsome
      | some t =>
          obtain ⟨hfaithful, hkeeps, hv⟩ := hstep v (List.mem_cons_self ..) t ht first d h
          obtain ⟨d', heq, hd', hkeeps', hall⟩ := ih (first + 1) hfaithful
          refine ⟨d', heq, hd', hkeeps.trans hkeeps', fun w hw hsome => ?_⟩
          rcases List.mem_cons.mp hw with rfl | hw
          · exact hQ _ _ _ hkeeps'.grows hv
          · exact hall w hw hsome

/-- The statements of constraints add them, in their order. -/
theorem foldl_constraints {cs : List (Constraint Float)}
    (hcs : ∀ c ∈ cs, IsReadableConstraint registry c)
    (hvars : ∀ c ∈ cs, ∀ v, c.Occurs v → v ∈ vars) (first : Nat) {d : Draft}
    (h : d.IsFaithful registry vars) :
    ∃ d' ds, (statements .constraints first (cs.map fun c => joined c.words)).foldl take d = d'
      ∧ d'.IsFaithful registry vars ∧ d'.objective = d.objective
      ∧ d'.constraints = d.constraints ++ ds ∧ d.symbols.Grows d'.symbols
      ∧ List.Forall₂ (IsRestoredConstraint d'.symbols.variableSet) cs ds := by
  induction cs generalizing first d with
  | nil => exact ⟨d, [], rfl, h, rfl, (List.append_nil _).symm, .refl _, .nil⟩
  | cons c cs ih =>
      have ih := @ih (fun b hb => hcs b (List.mem_cons_of_mem _ hb))
        fun b hb => hvars b (List.mem_cons_of_mem _ hb)
      obtain ⟨e, s, heq, hrestored, hagrees⟩ := constraintStatement_words
        (hcs c (List.mem_cons_self ..)) (hvars c (List.mem_cons_self ..)) first h.sound h.agrees
      have hgrows : d.symbols.Grows s := by
        have hleads := grows_constraintStatement ⟨first, joined c.words⟩ d.symbols
        rwa [heq] at hleads
      have htake : take d (.statement .constraints ⟨first, joined c.words⟩)
          = { d with symbols := s, constraints := d.constraints ++ [e] } := by
        rw [take, takeStatement, attempt_ok heq]
      have hfaithful : IsFaithful registry vars
          { d with symbols := s, constraints := d.constraints ++ [e] } :=
        ⟨hgrows.sound h.sound, hagrees, h.problems⟩
      obtain ⟨d', ds, heq', hd', hobjective, hconstraints, hgrows', hall⟩ :=
        ih (first + 1) hfaithful
      refine ⟨d', e :: ds, ?_, hd', hobjective, ?_, hgrows.trans hgrows', .cons ?_ hall⟩
      · show List.foldl take (take d (.statement .constraints ⟨first, joined c.words⟩)) _ = _
        rw [htake]
        exact heq'
      · rw [hconstraints, List.append_assoc]
        rfl
      · exact ⟨hrestored.normal, hrestored.alike, hrestored.words,
          fun v hv => hgrows'.mem (hrestored.known v hv)⟩

end Draft

/-! ### The sections of a model -/

variable {registry : Registry} {m : Model} {vars : VariableSet}

/-- The draft at the end of the text of a model. -/
structure IsRestoredDraft (registry : Registry) (m : Model) (vars : VariableSet) (d : Draft) :
    Prop where
  faithful : d.IsFaithful registry vars
  objective : ∃ u, d.objective = some ⟨m.objective.sense, u⟩
    ∧ IsRestored d.symbols.variableSet m.objective.term u
  constraints : List.Forall₂ (IsRestoredConstraint d.symbols.variableSet)
    (m.constraints.map Constraint.normalize) d.constraints
  bounds : ∀ v ∈ vars,
    boundsWords? v.name (registry.attributes v).lower (registry.attributes v).upper ≠ none →
      ∃ e, d.symbols.entries.get? v.name = some e ∧ e.bounds.isSome = true
  kinds : ∀ v ∈ vars, (registry.attributes v).kind ≠ .real →
    ∃ e, d.symbols.entries.get? v.name = some e ∧ e.kind.isSome = true

/-- The objective is read as it was written. -/
theorem take_objective (h : IsReadableModel registry m vars) (other : Registry) :
    ∃ d u, Draft.take (Draft.take (.start other) (.opening (.objective m.objective.sense)))
        (.statement (.objective m.objective.sense) ⟨2, joined m.objective.term.words⟩) = d
      ∧ d.IsFaithful registry vars ∧ d.objective = some ⟨m.objective.sense, u⟩
      ∧ d.constraints = [] ∧ IsRestored d.symbols.variableSet m.objective.term u := by
  obtain ⟨u, s, hu, hrestored⟩ := expression_termTokens h.objective (.start other)
  have hstands : ∀ t ∈ termTokens m.objective.term,
      StandsIn (Variable.sortByName m.objective.term.coefficients.toList) t :=
    standsIn_entryTokens _ _
  have hread : Draft.objectiveTerm (joined m.objective.term.words) (.start other)
      = (.ok u, s) := by
    have hcolon : ¬ .colon ∈ termTokens m.objective.term := fun hmem => hstands _ hmem
    refine (action_bind_ok (by
      rw [tokenize_joined (spells_termWords h.objective)]
      rfl)).trans ?_
    have hsplit := splitName_nameTokens none hcolon
    rw [show splitName (termTokens m.objective.term) = (none, _) from hsplit]
    exact hu
  have hnames : ∀ name, .name name ∈ termTokens m.objective.term → ∃ v ∈ vars, v.name = name := by
    intro name hname
    obtain ⟨p, hp, rfl⟩ := hstands _ hname
    exact ⟨p.1, h.occurring p.1 (.inl (Term.mem_occurring_iff.mpr ⟨p.2, hp⟩)), rfl⟩
  have hagrees : s.AgreesWith registry vars := by
    have hleads := agreesWith_expression hnames (.start other)
      (@Symbols.agreesWith_start registry vars other)
    rwa [hu] at hleads
  have hgrows : (Symbols.start other).Grows s := by
    have hleads := grows_objectiveTerm (joined m.objective.term.words) (.start other)
    rwa [hread] at hleads
  have hzero : 0 + u = u := zero_add_term (by
    rw [hrestored.constant]
    exact writtenConstant_ne _)
  refine ⟨⟨some ⟨m.objective.sense, u⟩, [], s, []⟩, u, ?_, ⟨hgrows.sound (Symbols.isSound_start _),
    hagrees, rfl⟩, rfl, rfl, hrestored⟩
  rw [Draft.take, Draft.take, Draft.takeStatement]
  refine (Draft.attempt_ok hread).trans ?_
  show (⟨some ⟨m.objective.sense, 0 + u⟩, [], s, []⟩ : Draft) = _
  rw [hzero]

/-- The bounds are noted. -/
theorem foldl_bounds (h : IsReadableModel registry m vars) (first : Nat) {d : Draft}
    (hd : d.IsFaithful registry vars) :
    ∃ d', (statements .bounds first ((boundsWords registry vars).map joined)).foldl Draft.take d
        = d' ∧ d'.IsFaithful registry vars ∧ d.Keeps d'
      ∧ ∀ v ∈ vars,
        boundsWords? v.name (registry.attributes v).lower (registry.attributes v).upper ≠ none →
          ∃ e, d'.symbols.entries.get? v.name = some e ∧ e.bounds.isSome = true := by
  have hlist : (boundsWords registry vars).map joined = vars.toList.filterMap fun v =>
      (boundsWords? v.name (registry.attributes v).lower (registry.attributes v).upper).map
        joined := by
    rw [boundsWords, List.map_filterMap]
  have hstep : ∀ v ∈ vars.toList, ∀ t,
      (boundsWords? v.name (registry.attributes v).lower (registry.attributes v).upper).map joined
        = some t → ∀ line (d : Draft), d.IsFaithful registry vars →
      (d.takeStatement .bounds ⟨line, t⟩).IsFaithful registry vars
        ∧ d.Keeps (d.takeStatement .bounds ⟨line, t⟩)
        ∧ ∃ e, (d.takeStatement .bounds ⟨line, t⟩).symbols.entries.get? v.name = some e
          ∧ e.bounds.isSome = true := by
    intro v hv t ht line d hd
    have hv := VariableSet.mem_toList_iff.mp hv
    obtain ⟨ws, hws, rfl⟩ := Option.map_eq_some_iff.mp ht
    obtain ⟨s, heq, hagrees, hbounds⟩ :=
      boundStatement_words hv (h.isPrintable.hasReadableBounds hv hws) hws line hd.agrees
    have hgrows : d.symbols.Grows s := by
      have hleads := grows_boundStatement ⟨line, joined ws⟩ d.symbols
      rwa [heq] at hleads
    have htake : d.takeStatement .bounds ⟨line, joined ws⟩ = { d with symbols := s } := by
      rw [Draft.takeStatement, Draft.attempt_ok heq]
    obtain ⟨hfaithful, hkeeps⟩ := hd.withSymbols hgrows hagrees
    rw [htake]
    exact ⟨hfaithful, hkeeps, hbounds⟩
  have hkept : ∀ (v : Variable) (s s' : Symbols), s.Grows s' →
      (∃ e, s.entries.get? v.name = some e ∧ e.bounds.isSome = true) →
        ∃ e, s'.entries.get? v.name = some e ∧ e.bounds.isSome = true := by
    rintro v s s' hgrows ⟨e, he, hbounds⟩
    obtain ⟨e', he', hentry⟩ := hgrows.entry _ e he
    exact ⟨e', he', hentry.bounds hbounds⟩
  obtain ⟨d', heq, hd', hkeeps, hall⟩ := Draft.foldl_statements _
    (fun v s => ∃ e, s.entries.get? v.name = some e ∧ e.bounds.isSome = true) hkept hstep first hd
  refine ⟨d', by rw [hlist]; exact heq, hd', hkeeps, fun v hv hne => ?_⟩
  refine hall v (VariableSet.mem_toList_iff.mpr hv) ?_
  rw [Option.isSome_map, Option.isSome_iff_ne_none]
  exact hne

/-- The names of a kind are declared. -/
theorem foldl_kinds (h : IsReadableModel registry m vars) (place : Section) (kind : Kind)
    (hplace : ∀ (d : Draft) s, d.takeStatement place s = d.declareWords kind s) (first : Nat)
    {d : Draft} (hd : d.IsFaithful registry vars) :
    ∃ d', (statements place first (((namesOfKind registry vars kind).map
        fun name => [name.toList]).map joined)).foldl Draft.take d = d'
      ∧ d'.IsFaithful registry vars ∧ d.Keeps d'
      ∧ ∀ v ∈ vars, (registry.attributes v).kind = kind →
          ∃ e, d'.symbols.entries.get? v.name = some e ∧ e.kind.isSome = true := by
  have hlist : ((namesOfKind registry vars kind).map fun name => [name.toList]).map joined
      = vars.toList.filterMap fun v =>
        if (registry.attributes v).kind = kind then some (joined [v.name.toList]) else none := by
    rw [namesOfKind_eq, List.map_map, List.map_filterMap]
    refine congrArg (List.filterMap · vars.toList) (funext fun v => ?_)
    split
    · rfl
    · rfl
  have hstep : ∀ v ∈ vars.toList, ∀ t,
      (if (registry.attributes v).kind = kind then some (joined [v.name.toList]) else none)
        = some t → ∀ line (d : Draft), d.IsFaithful registry vars →
      (d.takeStatement place ⟨line, t⟩).IsFaithful registry vars
        ∧ d.Keeps (d.takeStatement place ⟨line, t⟩)
        ∧ ∃ e, (d.takeStatement place ⟨line, t⟩).symbols.entries.get? v.name = some e
          ∧ e.kind.isSome = true := by
    intro v hv t ht line d hd
    have hv := VariableSet.mem_toList_iff.mp hv
    split at ht
    · rename_i hkind
      obtain ⟨s, heq, hagrees, hgrows, hdeclared⟩ :=
        declareWords_word hv (h.name v hv) line hd.agrees
      obtain ⟨hfaithful, hkeeps⟩ := hd.withSymbols hgrows hagrees
      rw [hplace, ← Option.some.inj ht, ← hkind, heq]
      exact ⟨hfaithful, hkeeps, hdeclared⟩
    · cases ht
  obtain ⟨d', heq, hd', hkeeps, hall⟩ := Draft.foldl_statements _
    (fun v s => ∃ e, s.entries.get? v.name = some e ∧ e.kind.isSome = true)
    (fun v s s' hgrows ⟨e, he, hkind⟩ => by
      obtain ⟨e', he', hentry⟩ := hgrows.entry _ e he
      obtain ⟨declared, hdeclared⟩ := Option.isSome_iff_exists.mp hkind
      obtain ⟨k, l, hk, _⟩ := hentry.kind declared.1 declared.2 hdeclared
      exact ⟨e', he', by rw [hk]; rfl⟩) hstep first hd
  refine ⟨d', by rw [hlist]; exact heq, hd', hkeeps, fun v hv hkind => ?_⟩
  refine hall v (VariableSet.mem_toList_iff.mpr hv) ?_
  rw [if_pos hkind]
  rfl

/-- The items of sections are dealt with section by section. -/
theorem Sections.foldl_items (s : Sections) {d d₁ d₂ d₃ d₄ d₅ : Draft}
    (h₁ : (d.take (.opening (.objective s.sense))).take
      (.statement (.objective s.sense) ⟨2, joined s.objective⟩) = d₁)
    (h₂ : (statements .constraints 4 (s.constraints.map joined)).foldl Draft.take d₁ = d₂)
    (h₃ : (statements .bounds (4 + s.constraints.length + 1) (s.bounds.map joined)).foldl
      Draft.take d₂ = d₃)
    (h₄ : (statements .binary (4 + s.constraints.length + 1 + s.bounds.length + 1)
      (s.binary.map joined)).foldl Draft.take d₃ = d₄)
    (h₅ : (statements .general (4 + s.constraints.length + 1 + s.bounds.length + 1
      + s.binary.length + 1) (s.general.map joined)).foldl Draft.take d₄ = d₅) :
    s.items.foldl Draft.take d = d₅ := by
  have hopening : ∀ (d : Draft) (o : Section), (∀ sense, o ≠ .objective sense) →
      d.take (.opening o) = d := by
    intro d o ho
    cases o with
    | objective sense => exact absurd rfl (ho sense)
    | preamble => rfl
    | constraints => rfl
    | bounds => rfl
    | binary => rfl
    | general => rfl
    | closed => rfl
  simp only [items, List.foldl_cons, List.foldl_append, List.foldl_nil, h₁,
    hopening _ .constraints nofun, h₂, hopening _ .bounds nofun, h₃, hopening _ .binary nofun, h₄,
    hopening _ .general nofun, h₅, hopening _ .closed nofun]

/-- The text of a model leaves a draft that has all of the model. -/
theorem foldl_items (h : IsReadableModel registry m vars) (other : Registry) :
    ∃ d, (Sections.ofModel registry m vars).items.foldl Draft.take (.start other) = d
      ∧ IsRestoredDraft registry m vars d := by
  obtain ⟨d₁, u, heq₁, hd₁, hobjective, hnone, hu⟩ := take_objective h other
  have hreadable : ∀ c ∈ m.constraints.map Constraint.normalize,
      IsReadableConstraint registry c := by
    intro c hc
    obtain ⟨b, hb, rfl⟩ := List.mem_map.mp hc
    exact h.constraints b hb
  have hoccurs : ∀ c ∈ m.constraints.map Constraint.normalize, ∀ v, c.Occurs v → v ∈ vars := by
    intro c hc v hv
    obtain ⟨b, hb, rfl⟩ := List.mem_map.mp hc
    exact h.occurring v (.inr ⟨b, hb, Constraint.occurs_normalize.mp hv⟩)
  obtain ⟨d₂, ds, heq₂, hd₂, hobjective₂, hconstraints₂, hgrows₂, hall⟩ :=
    Draft.foldl_constraints hreadable hoccurs 4 hd₁
  obtain ⟨d₃, heq₃, hd₃, hkeeps₃, hbounds⟩ := foldl_bounds h
    (4 + (Sections.ofModel registry m vars).constraints.length + 1) hd₂
  obtain ⟨d₄, heq₄, hd₄, hkeeps₄, hbinary⟩ := foldl_kinds h .binary .binary (fun _ _ => rfl)
    (4 + (Sections.ofModel registry m vars).constraints.length + 1
      + (Sections.ofModel registry m vars).bounds.length + 1) hd₃
  obtain ⟨d₅, heq₅, hd₅, hkeeps₅, hinteger⟩ := foldl_kinds h .general .integer (fun _ _ => rfl)
    (4 + (Sections.ofModel registry m vars).constraints.length + 1
      + (Sections.ofModel registry m vars).bounds.length + 1
      + (Sections.ofModel registry m vars).binary.length + 1) hd₄
  have hlater := hkeeps₃.trans (hkeeps₄.trans hkeeps₅)
  have hconstraintTexts : (m.constraints.map Constraint.normalize).map (fun c => joined c.words)
      = (Sections.ofModel registry m vars).constraints.map joined := by
    rw [List.map_map]
    show _ = (m.constraints.map fun c => c.normalize.words).map joined
    rw [List.map_map]
    rfl
  rw [hconstraintTexts] at heq₂
  refine ⟨d₅, ?_, hd₅, ⟨u, ?_, ?_⟩, ?_, fun v hv hne => ?_, fun v hv hne => ?_⟩
  · exact Sections.foldl_items _ heq₁ heq₂ heq₃ heq₄ heq₅
  · rw [hlater.objective, hobjective₂, hobjective]
  · exact hu.mono fun v hv => hlater.grows.mem (hgrows₂.mem hv)
  · rw [hlater.constraints, hconstraints₂, hnone, List.nil_append]
    exact hall.imp fun _ _ hcd => ⟨hcd.normal, hcd.alike, hcd.words,
      fun v hv => hlater.grows.mem (hcd.known v hv)⟩
  · obtain ⟨e, he, hsome⟩ := hbounds v hv hne
    obtain ⟨e', he', hentry⟩ := (hkeeps₄.trans hkeeps₅).grows.entry _ e he
    exact ⟨e', he', hentry.bounds hsome⟩
  · cases hkind : (registry.attributes v).kind with
    | real => exact absurd hkind hne
    | integer => exact hinteger v hv hkind
    | binary =>
        obtain ⟨e, he, hsome⟩ := hbinary v hv hkind
        obtain ⟨e', he', hentry⟩ := hkeeps₅.grows.entry _ e he
        obtain ⟨declared, hdeclared⟩ := Option.isSome_iff_exists.mp hsome
        obtain ⟨k, l, hk, _⟩ := hentry.kind declared.1 declared.2 hdeclared
        exact ⟨e', he', by rw [hk]; rfl⟩

end LinearProgram.LpText
