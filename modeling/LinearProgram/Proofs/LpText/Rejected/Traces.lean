import LinearProgram.Proofs.LpText.Accounted.Documents
import LinearProgram.Proofs.LpText.Rejected.Drafts
import LinearProgram.Proofs.LpText.Rejected.Statements

/-!
# `LinearProgram.Proofs.LpText.Rejected.Traces`: what is left of a rejected statement

A constraint that cannot be read is reported and skipped. Its names stay
entered, and that changes nothing for the rest of the text. But a guard
makes its variable binary when it is read, before it is found to be no
guard, and this is not taken back.

* `forcedVariable?` is the variable that a statement has made binary, and
  `mirrors_constraintStatement` says that this is all it leaves behind in
  the state of the reader.
* `Rejection` is a statement of a text that is rejected, and `IsPartOf`
  compares what is read of two texts.
* `Rejection.leaveNoTrace_iff`: nothing is left of the statement in the
  document, unless the rest of the text mentions the variable and does
  not make it binary itself. `forcedGuard_leavesTrace`: there are such
  texts.
-/

set_option autoImplicit false

namespace LinearProgram.LpText

open Symbols (Mirrors)

variable {s t t' : Symbols} {forced : Option String}

/-! ### The state behind a statement -/

namespace Symbols

/-- Whether names have been entered, and nothing has been said of them. -/
structure Enters (s s' : Symbols) : Prop where
  grows : s.Grows s'
  kind : ∀ name, s'.saidKind name = s.saidKind name
  bounds : ∀ name, s'.saidBounds name = s.saidBounds name

theorem isReach_enters : IsReach Enters where
  refl s := ⟨.refl s, fun _ => rfl, fun _ => rfl⟩
  trans h h' := ⟨h.grows.trans h'.grows, fun name => (h'.kind name).trans (h.kind name),
    fun name => (h'.bounds name).trans (h.bounds name)⟩

theorem enters_mention (s : Symbols) (name : String) : s.Enters (s.mention name).2 :=
  ⟨s.grows_mention name, s.saidKind_mention name, s.saidBounds_mention name⟩

/-- Names are entered in the second state alone. -/
theorem Mirrors.enter (h : s.Mirrors forced t) (ht : t.Enters t') : s.Mirrors forced t' where
  left := h.left
  right := ht.grows.sound h.right
  known v hv := by
    rw [h.namesake_eq ht.grows hv]
    exact ht.grows.mem (h.known v hv)
  bounds name := by rw [ht.bounds, h.bounds]
  kind name hname := by rw [ht.kind, h.kind name hname]
  forced name hname := by rw [ht.kind, h.forced name hname]

/-- A variable becomes binary in the second state alone. -/
theorem Mirrors.force (h : s.Mirrors none t) {v : Variable} (hv : v ∈ t.variableSet) (line : Nat) :
    s.Mirrors (some v.name) (LpText.declareGuard line v t) where
  left := h.left
  right := (t.grows_declareGuard line v).sound h.right
  known w hw := by
    rw [h.namesake_eq (t.grows_declareGuard line v) hw, mem_declareGuard_iff]
    exact h.known w hw
  bounds name := by rw [saidBounds_declareGuard, h.bounds]
  kind name hname := by
    rw [saidKind_declareGuard hv, if_neg fun heq => hname (congrArg some heq.symm)]
    exact h.kind name nofun
  forced name hname := by
    rw [saidKind_declareGuard hv, if_pos (Option.some.inj hname).symm]

end Symbols

theorem enters_relation (tokens : List (Token Float)) : Leads Symbols.Enters (relation tokens) :=
  leads_relation Symbols.isReach_enters fun name _ s => s.enters_mention name

/-- The variable of a guard, if it is the only one in there. -/
def guardVariable? (tokens : List (Token Float)) (s : Symbols) : Option Variable :=
  match relation tokens s with
  | (.ok g, _) =>
    match g.term.occurring with
    | [v] => some v
    | _ => none
  | (.error _, _) => none

/-- The variable that a statement makes binary. Its guard is read last,
so everything else has to be readable. -/
def forcedVariable? (st : Numbered) (s : Symbols) : Option Variable :=
  match tokenize st.text with
  | .ok tokens =>
    match relation (splitArrow (splitName tokens).2).2 s, (splitArrow (splitName tokens).2).1 with
    | (.ok _, s), some guardTokens => guardVariable? guardTokens s
    | _, _ => none
  | .error _ => none

theorem mirrors_guard (h : s.Mirrors none t) (line : Nat) (tokens : List (Token Float)) :
    s.Mirrors ((guardVariable? tokens t).map (·.name)) (guard line tokens t).2 := by
  have hentered := h.enter (enters_relation tokens t)
  have htally := tally_relation (Mirrors.refl h.right) tokens
  rw [guard, guardVariable?, Action.bind_apply]
  rcases hrelation : relation tokens t with ⟨e | g, t₁⟩
  · rw [hrelation] at hentered
    exact hentered
  · rw [hrelation] at hentered htally
    cases htally with
    | ok hlater hg =>
        dsimp only
        rcases hoccurring : g.term.occurring with _ | ⟨v, _ | ⟨w, others⟩⟩
        · exact hentered
        · refine hentered.force (hg.known v (Constraint.occurs_of_mem_term ?_)) line
          rw [hoccurring]
          exact List.mem_singleton_self v
        · exact hentered

/-- A statement that is read in the second state alone leaves nothing
else there than a binary variable. -/
theorem mirrors_constraintStatement (h : s.Mirrors none t) (st : Numbered) :
    s.Mirrors ((forcedVariable? st t).map (·.name)) (constraintStatement st t).2 := by
  rw [constraintStatement, forcedVariable?]
  cases tokenize st.text with
  | error e => exact h
  | ok tokens =>
      show s.Mirrors _ (constraintOf st.line tokens t).2
      dsimp only
      have hentered := h.enter (enters_relation (splitArrow (splitName tokens).2).2 t)
      rw [constraintOf_eq, Action.bind_apply]
      rcases hbody : relation (splitArrow (splitName tokens).2).2 t with ⟨e | c, t₁⟩
      · rw [hbody] at hentered
        exact hentered
      · rw [hbody] at hentered
        cases (splitArrow (splitName tokens).2).1 with
        | none => exact hentered
        | some guardTokens =>
            have hguard := mirrors_guard hentered st.line guardTokens
            dsimp only at hguard ⊢
            rw [Action.bind_apply]
            generalize guard st.line guardTokens t₁ = outcome at hguard ⊢
            rcases outcome with ⟨e | g, t₂⟩
            · exact hguard
            · -- Attaching a guard asks for kinds, and changes none.
              show s.Mirrors _ ((Action.lift .model _ : Reading Float _) t₂).2
              cases (nameAs c (splitName tokens).1).withIndicator t₂.registry g <;> exact hguard

/-! ### The end -/

namespace Symbols

/-- What the kind and the bounds of a name amount to in the end. -/
def saidAttributes (s : Symbols) (name : String) : Attributes :=
  let kind := (s.saidKind name).getD .real
  let bounds := (s.saidBounds name).getD (0, if kind = .binary then 1 else Binary64.infinity)
  .bounded kind bounds.1 bounds.2

theorem settled_eq_saidAttributes {name : String} {e : Entry} (he : s.entries.get? name = some e) :
    settled e = s.saidAttributes name := by
  unfold settled saidAttributes Draft.finalBounds Draft.finalKind saidKind saidBounds kindOf
    boundsOf
  rw [he]
  rcases e with ⟨v, _ | ⟨kind, line⟩, _ | b⟩
  · rfl
  · rfl
  · cases kind <;> rfl
  · rfl

end Symbols

/-- What the variables of a text are in the end. -/
theorem values_of_read (registry : Registry) (text : String) {v : Variable}
    (hv : v ∈ (read registry text).1.variableSet) :
    HasValues ((read registry text).2.attributes v)
      ((Draft.ofText registry text).symbols.saidAttributes v.name) := by
  obtain ⟨final, heq, hfinal, _⟩ := read_spec registry text
  rw [heq] at hv ⊢
  obtain ⟨e, he, rfl⟩ := Symbols.mem_variableSet_iff.mp hv
  rw [← Symbols.settled_eq_saidAttributes he]
  exact hfinal _ e he

/-- Whether a document has the objective and the constraints of another
one, and its variables have the kinds and the bounds that they have
there. One name may be left aside. -/
structure IsPartOf (aside : Option String) (f : Variable → Variable)
    (part whole : Document × Registry) : Prop where
  model : part.1.model.IsCopy f whole.1.model
  known : ∀ v ∈ part.1.variableSet, f v ∈ whole.1.variableSet ∧ (f v).name = v.name
  values : ∀ v ∈ part.1.variableSet, aside ≠ some v.name →
    HasValues (part.2.attributes v) (whole.2.attributes (f v))

/-- Two texts of which the drafts mirror one another. -/
theorem Draft.Mirrors.isPartOf {registry : Registry} {part whole : String}
    (h : Mirrors forced (ofText registry part) (ofText registry whole)) :
    IsPartOf forced (ofText registry whole).symbols.namesake (read registry part)
      (read registry whole) := by
  have hvalues := @values_of_read registry part
  have hvalues' := @values_of_read registry whole
  obtain ⟨final, heq, _⟩ := read_spec registry part
  obtain ⟨final', heq', _⟩ := read_spec registry whole
  rw [heq] at hvalues ⊢
  rw [heq'] at hvalues' ⊢
  generalize ofText registry part = d at *
  generalize ofText registry whole = e at *
  refine ⟨?_, fun v hv => ⟨h.symbols.known v hv, e.symbols.name_namesake v⟩, fun v hv hname => ?_⟩
  · have hobjective := h.objective
    cases hd : d.objective <;> cases he : e.objective <;> rw [hd, he] at hobjective
    · exact ⟨rfl, Term.isCopy_ofConstant 0, h.constraints.imp fun _ _ hc => hc.copy⟩
    · cases hobjective
    · cases hobjective
    · exact ⟨hobjective.1, hobjective.2.copy, h.constraints.imp fun _ _ hc => hc.copy⟩
  · have hsame : e.symbols.saidAttributes v.name = d.symbols.saidAttributes v.name := by
      rw [Symbols.saidAttributes, ← h.symbols.kind v.name hname, ← h.symbols.bounds]
      rfl
    have hwhole := hvalues' (h.symbols.known v hv)
    rw [e.symbols.name_namesake, hsame] at hwhole
    exact (hvalues hv).trans hwhole.symm

/-! ### Rejections -/

/-- A statement on a constraint that is rejected where it stands in a
text. -/
structure Rejection (registry : Registry) (text : String) where
  before : List Item
  statement : Numbered
  after : List Item
  items_eq : items text.toList = before ++ .statement .constraints statement :: after
  rejects : (constraintStatement statement
    (before.foldl Draft.take (.start registry)).symbols).1.isOk = false

/-- Whether nothing is left of some lines of a text, so that without
them it says the same of everything that it mentions. -/
def LeaveNoTrace (registry : Registry) (text : String) (numbers : List Nat) : Prop :=
  ∃ f, IsPartOf none f (read registry (strike numbers text)) (read registry text)

namespace Rejection

variable {registry : Registry} {text : String} (r : Rejection registry text)

/-- What has been read before the statement. -/
def reached : Draft := r.before.foldl Draft.take (.start registry)

/-- The name that the statement has made binary. -/
def forced? : Option String := (forcedVariable? r.statement r.reached.symbols).map (·.name)

/-- The statement is reported, and leaves the reader in some state. -/
theorem take_reached :
    ∃ error, r.reached.take (.statement .constraints r.statement)
      = { r.reached with
          symbols := (constraintStatement r.statement r.reached.symbols).2
          problems := r.reached.problems ++ [⟨r.statement.line, error⟩] } := by
  have hrejects := r.rejects
  rw [← reached] at hrejects
  rw [Draft.take, Draft.takeStatement, Draft.attempt]
  rcases hstatement : constraintStatement r.statement r.reached.symbols with ⟨error | c, s⟩
  · exact ⟨error, rfl⟩
  · rw [hstatement] at hrejects
    cases hrejects

theorem ofText_eq :
    Draft.ofText registry text
      = r.after.foldl Draft.take (r.reached.take (.statement .constraints r.statement)) := by
  rw [Draft.ofText, r.items_eq, List.foldl_append, List.foldl_cons, reached]

/-- The statement is among the problems that are reported in the end. -/
theorem mem_problems : ∃ error, ⟨r.statement.line, error⟩ ∈ (read registry text).1.problems := by
  obtain ⟨final, heq, _⟩ := read_spec registry text
  have htake : Draft.take = fun d item => item.parts.foldl Draft.step d :=
    funext fun d => funext fun item => Draft.take_eq d item
  have hafter : ∀ (its : List Item) (d : Draft),
      d.problems <+: (its.foldl Draft.take d).problems := by
    intro its d
    rw [htake, ← List.foldl_flatMap, Draft.foldl_step]
    exact List.prefix_append ..
  obtain ⟨error, hreached⟩ := r.take_reached
  refine ⟨error, ?_⟩
  rw [heq]
  refine List.mem_append_left _ ?_
  rw [r.ofText_eq]
  refine (hafter r.after _).subset ?_
  rw [hreached]
  exact List.mem_append_right _ (List.mem_singleton_self _)

/-- Without the statement the draft is mirrored by the one that has been
read with it. -/
theorem mirrors_ofText {numbers : List Nat}
    (h : (items (strike numbers text).toList).map Item.unnumbered
      = (r.before ++ r.after).map Item.unnumbered) :
    Draft.Mirrors r.forced? (Draft.ofText registry (strike numbers text))
      (Draft.ofText registry text) := by
  rw [List.map_append] at h
  obtain ⟨its, its', hitems, hbefore, hafter⟩ := List.map_eq_append_iff.mp h
  rw [r.ofText_eq, Draft.ofText, hitems, List.foldl_append]
  refine Draft.Mirrors.foldl_take hafter ?_
  have hreached := Draft.Mirrors.foldl_take hbefore (Draft.mirrors_start registry)
  rw [← reached] at hreached
  obtain ⟨error, htake⟩ := r.take_reached
  rw [htake]
  have hlater : Symbols.Later r.forced? _ _ _ _ :=
    ⟨.refl _, grows_constraintStatement r.statement r.reached.symbols,
      mirrors_constraintStatement hreached.symbols r.statement⟩
  have hmirrors := hreached.later hlater
  exact ⟨hmirrors.symbols, hmirrors.objective, hmirrors.constraints⟩

/-- Of the variable that a statement has made binary, the rest of the
text says the same if it makes it binary too. -/
theorem values_iff {numbers : List Nat} {f : Variable → Variable}
    (h : (items (strike numbers text).toList).map Item.unnumbered
      = (r.before ++ r.after).map Item.unnumbered)
    {v : Variable} (hv : v ∈ (read registry (strike numbers text)).1.variableSet)
    (hname : r.forced? = some v.name) (hf : f v ∈ (read registry text).1.variableSet)
    (hfname : (f v).name = v.name) :
    HasValues ((read registry (strike numbers text)).2.attributes v)
        ((read registry text).2.attributes (f v))
      ↔ ((read registry (strike numbers text)).2.attributes v).kind = .binary := by
  have hmirrors := (r.mirrors_ofText h).symbols
  have hforced := hmirrors.forced v.name hname
  have hpart := values_of_read registry _ hv
  have hwhole := values_of_read registry text hf
  rw [hfname] at hwhole
  generalize (Draft.ofText registry (strike numbers text)).symbols = s at *
  generalize (Draft.ofText registry text).symbols = t at *
  constructor
  · intro hvalues
    rw [hvalues.kind, hwhole.kind]
    show (t.saidKind v.name).getD .real = .binary
    rw [hforced]
    rfl
  · intro hbinary
    rw [hpart.kind] at hbinary
    -- A name of which no kind has been said is real, so it has been said.
    have hsaid : s.saidKind v.name = some .binary := by
      have hkind : (s.saidKind v.name).getD .real = .binary := hbinary
      cases hs : s.saidKind v.name with
      | none =>
          rw [hs] at hkind
          cases hkind
      | some kind =>
          rw [hs] at hkind
          exact congrArg some hkind
    have hsame : t.saidAttributes v.name = s.saidAttributes v.name := by
      rw [Symbols.saidAttributes, hforced, ← hsaid, ← hmirrors.bounds]
      rfl
    rw [hsame] at hwhole
    exact hpart.trans hwhole.symm

/-- Nothing is left of a rejected statement exactly if the rest of the
text makes the variable binary that the statement has forced to be so,
or does not mention it. Everything else is the same in any case. -/
theorem leaveNoTrace_iff :
    (∃ error, ⟨r.statement.line, error⟩ ∈ (read registry text).1.problems)
      ∧ ∃ run, merged run = some r.statement ∧ run.map .content <:+: piecesOfText text
        ∧ (∃ f, IsPartOf r.forced? f (read registry (strike (run.map Numbered.line) text))
            (read registry text))
        ∧ (LeaveNoTrace registry text (run.map Numbered.line)
          ↔ ∀ v ∈ (read registry (strike (run.map Numbered.line) text)).1.variableSet,
            r.forced? = some v.name →
            ((read registry (strike (run.map Numbered.line) text)).2.attributes v).kind
              = .binary) := by
  obtain ⟨run, hrun, hinfix, hitems⟩ := items_strike r.items_eq
  have hpart := (r.mirrors_ofText hitems).isPartOf
  refine ⟨r.mem_problems, run, hrun, hinfix, ⟨_, hpart⟩, ?_, fun hbinary =>
    ⟨(Draft.ofText registry text).symbols.namesake, ?_⟩⟩
  · rintro ⟨f, hf⟩ v hv hname
    obtain ⟨hmem, hfname⟩ := hf.known v hv
    exact (r.values_iff hitems hv hname hmem hfname).mp (hf.values v hv nofun)
  · refine ⟨hpart.model, hpart.known, fun v hv _ => ?_⟩
    by_cases hname : r.forced? = some v.name
    · obtain ⟨hmem, hfname⟩ := hpart.known v hv
      exact (r.values_iff hitems hv hname hmem hfname).mpr (hbinary v hv hname)
    · exact hpart.values v hv hname

end Rejection

/-- The guard of this statement is a guard, but two variables are
related behind it. -/
def unreadableBody : Rejection ∅ "MIN\n b\nST\n b = 1 -> x <= y\nEND\n" where
  before := [.opening (.objective .minimize), .statement (.objective .minimize) ⟨2, "b".toList⟩,
    .opening .constraints]
  statement := ⟨4, "b = 1 -> x <= y".toList⟩
  after := [.opening .closed]
  items_eq := by decide +kernel
  rejects := by decide +kernel

/-- A statement of which no guard is read. -/
theorem unreadableBody_leavesNoTrace :
    ∃ run, merged run = some unreadableBody.statement
      ∧ LeaveNoTrace ∅ "MIN\n b\nST\n b = 1 -> x <= y\nEND\n" (run.map Numbered.line) := by
  obtain ⟨_, run, hrun, _, _, htrace⟩ := unreadableBody.leaveNoTrace_iff
  have hforced : unreadableBody.forced? = none := by decide +kernel
  refine ⟨run, hrun, htrace.mpr fun v _ hname => ?_⟩
  rw [hforced] at hname
  cases hname

/-- A guard that compares with two, and nothing else that makes its
variable binary. -/
def forcedText : String := "MIN\n b\nST\n b = 2 -> x <= 3\nEND\n"

/-- The statement is rejected and reported. Its variable is binary for
all that, and without the statement it is real. -/
theorem forcedGuard_leavesTrace :
    items forcedText.toList
        = [.opening (.objective .minimize), .statement (.objective .minimize) ⟨2, "b".toList⟩,
          .opening .constraints, .statement .constraints ⟨4, "b = 2 -> x <= 3".toList⟩,
          .opening .closed]
      ∧ (read ∅ forcedText).1.problems.map (·.line) = [4]
      ∧ (read ∅ forcedText).1.model.constraints = []
      ∧ ¬ LeaveNoTrace ∅ forcedText [4] := by
  have hpart : ∃ v ∈ (read ∅ (strike [4] forcedText)).1.variableSet.toList, v.name = "b"
      ∧ ((read ∅ (strike [4] forcedText)).2.attributes v).kind = .real := by
    decide +kernel
  have hwhole : ∀ v ∈ (read ∅ forcedText).1.variableSet.toList, v.name = "b" →
      ((read ∅ forcedText).2.attributes v).kind = .binary := by
    decide +kernel
  refine ⟨by decide +kernel, by decide +kernel, ?_, ?_⟩
  · rw [← List.isEmpty_iff]
    decide +kernel
  · rintro ⟨f, hf⟩
    obtain ⟨v, hv, hname, hreal⟩ := hpart
    have hv := VariableSet.mem_toList_iff.mp hv
    obtain ⟨hmem, hfname⟩ := hf.known v hv
    have hkind := (hf.values v hv nofun).kind
    rw [hreal, hwhole _ (VariableSet.mem_toList_iff.mpr hmem) (hfname.trans hname)] at hkind
    cases hkind

end LinearProgram.LpText
