import LinearProgram.Proofs.LpText.Rejected.Traces

/-!
# `LinearProgram.Proofs.LpText.Declared.Conflicts`: two kinds for one name

A text says in three ways of what kind a variable is: it lists the name
among the binary variables or among the general ones, or it uses it in a
guard. A name that is listed keeps the kind that it has, and it is
refused if it was to be of another one. A guard is never refused: it
makes its variable binary whatever was said before.

What is said of one name is a sequence of sayings, and the sequences of
which nothing is refused are few (`agreed_iff`).

* `sayings` is what a text says of the kind of a name, and
  `agreed_iff_accepted` says which listings are accepted.
* `conflict_of_read`: a name of two kinds is refused wherever it is
  listed for the second one. But if it is general and a guard makes it
  binary later (`IsOverruled`), nothing is reported
  (`overruled_isUnreported`).
-/

set_option autoImplicit false

namespace LinearProgram.LpText

open Symbols (Mirrors)

/-! ### Sayings -/

/-- Something that is said of the kind of a name. -/
inductive Saying where
  | listed (kind : Kind)
  /-- A guard makes the variable binary. -/
  | guarded
deriving DecidableEq

namespace Saying

/-- The kind of the name after something was said of it. -/
def toKind (old : Option Kind) : Saying → Kind
  | listed kind => old.getD kind
  | guarded => .binary

/-- Whether the name has another kind already. A guard does not ask. -/
def IsRefused (old : Option Kind) : Saying → Prop
  | listed kind => old.getD kind ≠ kind
  | guarded => False

end Saying

/-- Whether nothing is refused of what is said one after another. -/
def Agreed (old : Option Kind) : List Saying → Prop
  | [] => True
  | x :: xs => ¬ x.IsRefused old ∧ Agreed (some (x.toKind old)) xs

/-- Whether a name is listed for one kind until a guard makes it binary,
and not after that. -/
def IsOverruled (kind : Kind) (xs : List Saying) : Prop :=
  ∃ before after, xs = before ++ .guarded :: after ∧ (∀ x ∈ before, x = .listed kind)
    ∧ ∀ x ∈ after, x = .guarded ∨ x = .listed .binary

/-- Of a binary variable nothing else may be said. -/
theorem agreed_binary_iff {xs : List Saying} :
    Agreed (some .binary) xs ↔ ∀ x ∈ xs, x = .guarded ∨ x = .listed .binary := by
  induction xs with
  | nil => exact ⟨fun _ x hx => absurd hx List.not_mem_nil, fun _ => trivial⟩
  | cons x xs ih =>
      rw [List.forall_mem_cons, ← ih]
      cases x with
      | guarded => exact ⟨fun h => ⟨.inl rfl, h.2⟩, fun h => ⟨id, h.2⟩⟩
      | listed kind =>
          show ¬ Kind.binary ≠ kind ∧ Agreed (some .binary) xs ↔ _
          simp only [ne_eq, not_not, Saying.listed.injEq, reduceCtorEq, false_or, eq_comm]

/-- A variable of another kind keeps it until there is a guard. -/
theorem agreed_some_iff {kind : Kind} {xs : List Saying} :
    Agreed (some kind) xs ↔ (∀ x ∈ xs, x = .listed kind) ∨ IsOverruled kind xs := by
  induction xs with
  | nil => exact ⟨fun _ => .inl fun x hx => absurd hx List.not_mem_nil, fun _ => trivial⟩
  | cons x xs ih =>
      cases x with
      | guarded =>
          show ¬ False ∧ Agreed (some .binary) xs ↔ _
          rw [agreed_binary_iff]
          constructor
          · exact fun h => .inr ⟨[], xs, rfl, fun x hx => absurd hx List.not_mem_nil, h.2⟩
          · rintro (h | ⟨before, after, heq, hbefore, hafter⟩)
            · cases h _ (List.mem_cons_self ..)
            · -- Before a guard that comes first there is nothing.
              cases before with
              | nil =>
                  cases heq
                  exact ⟨id, hafter⟩
              | cons y before =>
                  cases heq
                  cases hbefore _ (List.mem_cons_self ..)
      | listed other =>
          show ¬ kind ≠ other ∧ Agreed (some kind) xs ↔ _
          rw [ih, not_not]
          constructor
          · rintro ⟨rfl, h | ⟨before, after, rfl, hbefore, hafter⟩⟩
            · exact .inl (List.forall_mem_cons.mpr ⟨rfl, h⟩)
            · exact .inr ⟨.listed kind :: before, after, rfl,
                List.forall_mem_cons.mpr ⟨rfl, hbefore⟩, hafter⟩
          · rintro (h | ⟨before, after, heq, hbefore, hafter⟩)
            · cases h _ (List.mem_cons_self ..)
              exact ⟨rfl, .inl fun x hx => h x (List.mem_cons_of_mem _ hx)⟩
            · cases before with
              | nil => cases heq
              | cons y before =>
                  cases heq
                  cases hbefore _ (List.mem_cons_self ..)
                  exact ⟨rfl, .inr ⟨before, after, rfl,
                    fun x hx => hbefore x (List.mem_cons_of_mem _ hx), hafter⟩⟩

/-- A variable that has a kind is listed for this kind or as binary. -/
theorem eq_of_listed {k kind : Kind} {xs : List Saying} (h : Agreed (some k) xs)
    (hlisted : .listed kind ∈ xs) : kind = k ∨ kind = .binary := by
  induction xs generalizing k with
  | nil => cases hlisted
  | cons x xs ih =>
      obtain ⟨hfirst, h⟩ := h
      cases x with
      | guarded =>
          rcases List.mem_cons.mp hlisted with heq | hmem
          · cases heq
          · exact .inr ((ih h hmem).elim id id)
      | listed other =>
          have hsame : k = other := not_not.mp hfirst
          rcases List.mem_cons.mp hlisted with heq | hmem
          · cases heq
            exact .inl hsame.symm
          · exact ih h hmem

/-- A name that is said to be of some kind and to be binary is refused,
unless it is a guard that says so, and says so last. -/
theorem agreed_iff {kind : Kind} (hkind : kind ≠ .binary) {xs : List Saying}
    (hlisted : .listed kind ∈ xs) (hbinary : .listed .binary ∈ xs ∨ .guarded ∈ xs) :
    Agreed none xs ↔ IsOverruled kind xs := by
  -- Only this kind can have been the first one.
  have hstart : Agreed none xs ↔ Agreed (some kind) xs := by
    cases xs with
    | nil => cases hlisted
    | cons x xs =>
        cases x with
        | guarded => exact Iff.rfl
        | listed first =>
            constructor
            · intro h
              have hfirst : kind = first := by
                rcases List.mem_cons.mp hlisted with heq | hmem
                · cases heq
                  rfl
                · exact (eq_of_listed h.2 hmem).resolve_right hkind
              subst hfirst
              exact h
            · rintro ⟨hfirst, h⟩
              have hfirst : kind = first := not_not.mp hfirst
              subst hfirst
              exact ⟨hfirst, h⟩
  rw [hstart, agreed_some_iff, or_iff_right]
  intro h
  rcases hbinary with hmem | hmem
  · cases h _ hmem
    exact hkind rfl
  · cases h _ hmem

/-! ### What a text says of a name -/

/-- What a part says of the kind of a name, in the state in which it is
read. -/
def Part.saying? (name : String) (s : Symbols) : Part → Option Saying
  | .word kind _ w => if String.ofList w = name then some (.listed kind) else none
  | .constraint st =>
    if (forcedVariable? st s).map (·.name) = some name then some .guarded else none
  | _ => none

/-- What parts say of the kind of a name, one after another. -/
def sayings (name : String) (s : Symbols) : List Part → List Saying
  | [] => []
  | part :: rest => (part.saying? name s).toList ++ sayings name (answer s part).2 rest

/-- The kind and the name, if a part is one of a list. -/
def Part.listing? : Part → Option (Kind × String)
  | .word kind _ w => some (kind, String.ofList w)
  | _ => none

/-- Whether a problem is that a name cannot be declared. -/
def Problem.Refuses (name : String) (p : Problem) : Prop :=
  p.error = .notAName name ∨ ∃ declared, p.error = .redeclared name declared

/-- What states have while a text is read. -/
structure Symbols.IsProper (s : Symbols) : Prop where
  sound : s.IsSound
  named : s.IsNamed

theorem isProper_start (registry : Registry) : (Symbols.start registry).IsProper :=
  ⟨Symbols.isSound_start registry, Symbols.isNamed_start registry⟩

/-- A name of which a kind is said is a name. -/
theorem Symbols.IsNamed.isName_of_saidKind {s : Symbols} (h : s.IsNamed) {name : String}
    {kind : Kind} (hkind : s.saidKind name = some kind) : isName name.toList = true := by
  rw [saidKind, kindOf] at hkind
  cases he : s.entries.get? name with
  | none =>
      rw [he] at hkind
      cases hkind
  | some e => exact (h name e he).1

theorem isProper_answer {s : Symbols} (h : s.IsProper) (part : Part) :
    (answer s part).2.IsProper := by
  cases part with
  | header opened => exact h
  | outside c => exact h
  | afterEnd c => exact h
  | objective sense st =>
      rw [answer, snd_outcomeOf]
      exact ⟨(grows_objectiveTerm st.text s).sound h.sound,
        isNamed_objectiveTerm st.text s h.named⟩
  | constraint st =>
      rw [answer, snd_outcomeOf]
      exact ⟨(grows_constraintStatement st s).sound h.sound,
        isNamed_constraintStatement st s h.named⟩
  | bounds st =>
      have hgrows := grows_boundStatement st s
      have hnamed := isNamed_boundStatement st s h.named
      rw [Draft.boundStatement_eq] at hgrows hnamed
      rw [answer]
      cases hclause : boundClause st with
      | error e => exact h
      | ok clause =>
          rw [hclause] at hgrows hnamed
          exact ⟨hgrows.sound h.sound, hnamed⟩
  | word kind line w =>
      rw [answer]
      by_cases hname : isName w = true
      · have hofList : isName (String.ofList w).toList = true := by rwa [String.toList_ofList]
        have hmention := h.named.mention hofList
        refine ⟨(Symbols.grows_answerWord kind line hname s).1.sound
          (Symbols.isSound_mention h.sound _), ?_⟩
        rw [Symbols.snd_answerWord kind line hname]
        split
        · exact hmention.declareKind _ kind line
        · exact hmention
      · rw [answerWord, if_neg hname]
        exact h

theorem enters_objectiveTerm (text : List Char) :
    Leads Symbols.Enters (Draft.objectiveTerm text) :=
  Leads.bind Symbols.isReach_enters (leads_lift Symbols.isReach_enters _ _) fun _ =>
    leads_expression Symbols.isReach_enters fun name _ s => s.enters_mention name

/-- The kind of a name changes by what is said of it. -/
theorem saidKind_answer {s : Symbols} (h : s.IsProper) {name : String}
    (hname : isName name.toList = true) (part : Part) :
    (answer s part).2.saidKind name
      = (part.saying? name s).elim (s.saidKind name)
          fun x => some (x.toKind (s.saidKind name)) := by
  cases part with
  | header opened => rfl
  | outside c => rfl
  | afterEnd c => rfl
  | objective sense st =>
      rw [answer, snd_outcomeOf]
      exact (enters_objectiveTerm st.text s).kind name
  | constraint st =>
      have hmirrors := mirrors_constraintStatement (Mirrors.refl h.sound) st
      rw [answer, snd_outcomeOf, Part.saying?]
      split
      · rename_i hforced
        exact hmirrors.forced name hforced
      · rename_i hforced
        exact (hmirrors.kind name hforced).symm
  | bounds st =>
      rw [answer]
      cases boundClause st with
      | error e => rfl
      | ok clause => exact congrArg (Option.map _) (s.kindOf_declareBounds ..)
  | word kind line w =>
      rw [answer, Part.saying?]
      by_cases hw : String.ofList w = name
      · have hword : isName w = true := by rwa [← hw, String.toList_ofList] at hname
        rw [if_pos hw, Symbols.saidKind_answerWord kind line hword, if_pos hw.symm]
        rfl
      · rw [if_neg hw]
        by_cases hword : isName w = true
        · rw [Symbols.saidKind_answerWord kind line hword, if_neg (Ne.symm hw)]
          rfl
        · rw [answerWord, if_neg hword]
          rfl

/-- A listing is accepted unless the name has another kind. -/
theorem problem?_answerWord_eq_none_iff {s : Symbols} {kind : Kind} {line : Nat} {w : List Char}
    (h : isName w = true) :
    (answerWord kind line w s).1.problem? = none
      ↔ (s.saidKind (String.ofList w)).getD kind = kind := by
  rw [answerWord, if_pos h]
  dsimp only
  rw [Symbols.kindOf_mention, Symbols.saidKind]
  cases s.kindOf (String.ofList w) with
  | none => exact ⟨fun _ => rfl, fun _ => rfl⟩
  | some p =>
      dsimp only [Option.map_some, Option.getD_some]
      split
      · rename_i hsame
        exact ⟨fun _ => hsame, fun _ => rfl⟩
      · rename_i hsame
        refine ⟨fun hnone => ?_, fun heq => absurd heq hsame⟩
        cases hnone

/-- The listings of a part are accepted if nothing is refused of what it
says. -/
theorem accepted_answer_iff {s : Symbols} {name : String} (hname : isName name.toList = true)
    (part : Part) :
    (∀ kind, part.listing? = some (kind, name) → (answer s part).1.problem? = none)
      ↔ ∀ x, part.saying? name s = some x → ¬ x.IsRefused (s.saidKind name) := by
  cases part with
  | word kind line w =>
      rw [answer, Part.saying?]
      by_cases hw : String.ofList w = name
      · have hword : isName w = true := by rwa [← hw, String.toList_ofList] at hname
        rw [if_pos hw, problem?_answerWord_eq_none_iff hword, hw]
        constructor
        · rintro h x hx hrefused
          cases hx
          exact hrefused (h kind (congrArg (fun name => some (kind, name)) hw))
        · exact fun h _ _ => not_not.mp (h _ rfl)
      · rw [if_neg hw]
        refine ⟨fun _ x hx => ?_, fun _ k hlisting => ?_⟩
        · cases hx
        · cases hlisting
          exact absurd rfl hw
  | constraint st =>
      refine ⟨fun _ x hx => ?_, fun _ k hlisting => ?_⟩
      · rw [Part.saying?] at hx
        split at hx
        · cases hx
          exact id
        · cases hx
      · cases hlisting
  | _ =>
      refine ⟨fun _ x hx => ?_, fun _ k hlisting => ?_⟩
      · cases hx
      · cases hlisting

/-- Nothing is refused of what is said of a name exactly if every listing
of it is accepted. -/
theorem agreed_iff_accepted {s : Symbols} (h : s.IsProper) {name : String}
    (hname : isName name.toList = true) (parts : List Part) :
    Agreed (s.saidKind name) (sayings name s parts)
      ↔ ∀ q ∈ parts.zip (answers s parts).1, ∀ kind, q.1.listing? = some (kind, name) →
        q.2.problem? = none := by
  -- A part says at most one thing, in the state that the parts before it have left.
  induction parts generalizing s with
  | nil => exact ⟨fun _ q hq => absurd hq List.not_mem_nil, fun _ => trivial⟩
  | cons part parts ih =>
      have hrest := ih (isProper_answer h part)
      rw [saidKind_answer h hname] at hrest
      rw [answers, List.zip_cons_cons, List.forall_mem_cons, accepted_answer_iff hname, ← hrest,
        sayings]
      cases part.saying? name s with
      | none =>
          refine ⟨fun hxs => ⟨fun x hx => ?_, hxs⟩, fun hxs => hxs.2⟩
          cases hx
      | some x =>
          refine and_congr_left fun _ => ⟨?_, fun hx => hx x rfl⟩
          rintro hx y hy
          cases hy
          exact hx

/-- What is reported of a listing is that the name is refused. -/
theorem refuses_of_answer {s : Symbols} {kind : Kind} {name : String} {part : Part} {p : Problem}
    (hlisting : part.listing? = some (kind, name)) (hp : (answer s part).1.problem? = some p) :
    p.Refuses name := by
  cases part with
  | word kind line w =>
      cases hlisting
      rw [answer, answerWord] at hp
      split at hp
      · dsimp only at hp
        split at hp
        · split at hp
          · cases hp
          · cases hp
            exact .inr ⟨_, rfl⟩
        · cases hp
      · cases hp
        exact .inl rfl
  | _ => cases hlisting

/-- The outcome beside a part is the one that it had in some state. -/
theorem eq_answer_of_mem_zip {s : Symbols} {parts : List Part} {q : Part × Outcome}
    (hq : q ∈ parts.zip (answers s parts).1) : ∃ s', q.2 = (answer s' q.1).1 := by
  induction parts generalizing s with
  | nil => cases hq
  | cons part parts ih =>
      rw [answers, List.zip_cons_cons] at hq
      rcases List.mem_cons.mp hq with rfl | hq
      · exact ⟨s, rfl⟩
      · exact ih hq

theorem exists_mem_zip_answers {s : Symbols} {parts : List Part} {part : Part}
    (hpart : part ∈ parts) : ∃ s', (part, (answer s' part).1) ∈ parts.zip (answers s parts).1 := by
  induction parts generalizing s with
  | nil => cases hpart
  | cons first parts ih =>
      rw [answers, List.zip_cons_cons]
      rcases List.mem_cons.mp hpart with rfl | hpart
      · exact ⟨s, List.mem_cons_self ..⟩
      · obtain ⟨s', hmem⟩ := @ih (answer s first).2 hpart
        exact ⟨s', List.mem_cons_of_mem _ hmem⟩

/-! ### Listings and guards -/

theorem listed_mem_sayings {s : Symbols} {parts : List Part} {part : Part} {kind : Kind}
    {name : String} (hpart : part ∈ parts) (hlisting : part.listing? = some (kind, name)) :
    .listed kind ∈ sayings name s parts := by
  induction parts generalizing s with
  | nil => cases hpart
  | cons first parts ih =>
      rw [sayings]
      rcases List.mem_cons.mp hpart with rfl | hpart
      · cases part with
        | word k line w =>
            cases hlisting
            rw [Part.saying?, if_pos rfl]
            exact List.mem_append_left _ (List.mem_singleton_self _)
        | _ => cases hlisting
      · exact List.mem_append_right _ (ih hpart)

/-- What is read as a guard is what is related in it. -/
theorem relation_of_guard {line : Nat} {tokens : List (Token Float)} {s s' : Symbols}
    {g : Constraint Float} (h : guard line tokens s = (.ok g, s')) :
    ∃ s₁, relation tokens s = (.ok g, s₁) := by
  obtain ⟨c, s₁, hrelation, h⟩ := action_bind_inv h
  -- Whichever variables there are, the constraint is kept.
  rcases hoccurring : c.term.occurring with _ | ⟨v, _ | ⟨w, others⟩⟩ <;> rw [hoccurring] at h
  · cases h
    exact ⟨_, hrelation⟩
  · cases h
    exact ⟨_, hrelation⟩
  · cases h
    exact ⟨_, hrelation⟩

/-- The variable of a guard that was accepted has become binary by it. -/
theorem forcedVariable?_of_guard {st : Numbered} {s s' : Symbols} {c g : Constraint Float}
    (h : constraintStatement st s = (.ok c, s')) (hg : c.guard = some g) {v : Variable}
    (hv : v ∈ g.term.occurring) : forcedVariable? st s = some v := by
  obtain ⟨tokens, s₁, htokens, h⟩ := action_bind_inv h
  obtain ⟨hread, rfl⟩ := action_lift_inv htokens
  have hnames : HasPlainNames (splitArrow (splitName tokens).2).2 := fun name hname =>
    isPlainName_of_tokenize hread name (mem_of_mem_splitName (mem_of_mem_splitArrow.2 hname))
  rw [constraintOf_eq] at h
  obtain ⟨body, s₂, hbody, h⟩ := action_bind_inv h
  obtain ⟨⟨shape, t, name⟩, rfl, hname, _⟩ := isAcceptedRow_relation hnames hbody
  have hname : name = none := hname
  subst hname
  rw [nameAs_plain] at h
  rw [forcedVariable?, hread]
  dsimp only
  rw [hbody]
  cases harrow : (splitArrow (splitName tokens).2).1 with
  | none =>
      rw [harrow] at h
      cases h
      cases hg
  | some guardTokens =>
      rw [harrow] at h
      obtain ⟨g', s₃, hguard, h⟩ := action_bind_inv h
      obtain ⟨hindicator, _⟩ := action_lift_inv h
      unfold Constraint.withIndicator at hindicator
      split at hindicator
      · rename_i hswitch
        cases hindicator
        cases hg
        -- Of the one variable of an indicator no other one can be meant.
        obtain ⟨_, w, hw⟩ := Constraint.isSwitch_of_isIndicator hswitch
        have hoccurring := occurring_of_loneVariable? hw
        rw [hoccurring, List.mem_singleton] at hv
        obtain ⟨s₄, hrelation⟩ := relation_of_guard hguard
        dsimp only
        rw [guardVariable?, hrelation]
        dsimp only
        rw [hoccurring, hv]
      · cases hindicator

theorem guarded_mem_sayings {s : Symbols} {parts : List Part} {c g : Constraint Float}
    (hc : .constraint c ∈ (answers s parts).1) (hg : c.guard = some g) {v : Variable}
    (hv : v ∈ g.term.occurring) : .guarded ∈ sayings v.name s parts := by
  induction parts generalizing s with
  | nil => cases hc
  | cons part parts ih =>
      rw [answers] at hc
      rw [sayings]
      rcases List.mem_cons.mp hc with hfirst | hc
      · refine List.mem_append_left _ ?_
        have hyields := answer_yields s part
        rw [← hfirst] at hyields
        cases part with
        | constraint st =>
            rw [answer] at hfirst
            rcases hread : constraintStatement st s with ⟨_ | c', s'⟩
            · rw [hread] at hfirst
              cases hfirst
            · rw [hread] at hfirst
              cases hfirst
              rw [Part.saying?, forcedVariable?_of_guard hread hg hv, Option.map_some, if_pos rfl]
              exact List.mem_singleton_self _
        | _ => exact hyields.elim
      · exact List.mem_append_right _ (ih hc)

/-- What a guard makes binary is a name. -/
theorem isName_of_guarded {s : Symbols} (h : s.IsProper) {parts : List Part} {name : String}
    (hmem : .guarded ∈ sayings name s parts) : isName name.toList = true := by
  induction parts generalizing s with
  | nil => cases hmem
  | cons part parts ih =>
      rw [sayings] at hmem
      rcases List.mem_append.mp hmem with hmem | hmem
      · have hsaying := Option.mem_toList.mp hmem
        cases part with
        | constraint st =>
            rw [Part.saying?] at hsaying
            split at hsaying
            · rename_i hforced
              have hmirrors := mirrors_constraintStatement (Mirrors.refl h.sound) st
              exact (isNamed_constraintStatement st s h.named).isName_of_saidKind
                (hmirrors.forced name hforced)
            · cases hsaying
        | word kind line w =>
            rw [Part.saying?] at hsaying
            split at hsaying
            · cases hsaying
            · cases hsaying
        | _ => cases hsaying
      · exact ih (isProper_answer h part) hmem

/-! ### Texts -/

/-- Whether a text lists a name for a kind. -/
def IsListed (text : String) (kind : Kind) (name : String) : Prop :=
  ∃ part ∈ partsOf text, part.listing? = some (kind, name)

instance (text : String) (kind : Kind) (name : String) : Decidable (IsListed text kind name) :=
  inferInstanceAs (Decidable (∃ part ∈ partsOf text, part.listing? = some (kind, name)))

/-- Whether a constraint of a document has a guard with this variable. -/
def Document.IsGuarding (doc : Document) (name : String) : Prop :=
  ∃ c ∈ doc.model.constraints, ∃ g ∈ c.guard, ∃ v ∈ g.term.occurring, v.name = name

instance (doc : Document) (name : String) : Decidable (doc.IsGuarding name) :=
  inferInstanceAs
    (Decidable (∃ c ∈ doc.model.constraints, ∃ g ∈ c.guard, ∃ v ∈ g.term.occurring, v.name = name))

/-- What becomes of the parts of a text. -/
def outcomesOf (registry : Registry) (text : String) : List Outcome :=
  (answers (.start registry) (partsOf text)).1

/-- What a text says of the kind of a name. -/
def sayingsOf (registry : Registry) (text name : String) : List Saying :=
  sayings name (.start registry) (partsOf text)

theorem problem_mem_of_outcome {registry : Registry} {text : String} {o : Outcome} {p : Problem}
    (ho : o ∈ outcomesOf registry text) (hp : o.problem? = some p) :
    p ∈ (read registry text).1.problems := by
  obtain ⟨final, heq, _⟩ := read_spec registry text
  rw [heq, Draft.ofText_eq]
  exact List.mem_append_left _ (List.mem_filterMap.mpr ⟨o, ho, hp⟩)

theorem outcome_of_constraint {registry : Registry} {text : String} {c : Constraint Float}
    (hc : c ∈ (read registry text).1.model.constraints) :
    .constraint c ∈ outcomesOf registry text := by
  obtain ⟨final, heq, _⟩ := read_spec registry text
  rw [heq, Draft.ofText_eq] at hc
  obtain ⟨o, ho, hkeep⟩ := List.mem_filterMap.mp hc
  cases o with
  | constraint c' =>
      cases hkeep
      exact ho
  | _ => cases hkeep

/-- A listing that is not accepted is reported. -/
theorem refused_of_not_accepted {registry : Registry} {text name : String}
    (h : ¬ ∀ q ∈ (partsOf text).zip (outcomesOf registry text), ∀ kind,
      q.1.listing? = some (kind, name) → q.2.problem? = none) :
    ∃ p ∈ (read registry text).1.problems, p.Refuses name := by
  push Not at h
  obtain ⟨q, hq, kind, hlisting, hproblem⟩ := h
  obtain ⟨p, hp⟩ := Option.ne_none_iff_exists'.mp hproblem
  refine ⟨p, problem_mem_of_outcome (List.of_mem_zip hq).2 hp, ?_⟩
  obtain ⟨s, hs⟩ := eq_answer_of_mem_zip hq
  rw [hs] at hp
  exact refuses_of_answer hlisting hp

/-- A name that a text lists as general, and also lists as binary or uses
in a guard, is refused in one of its listings, whatever their order. The
only exception is a name that is listed as general alone until a guard
makes it binary: then all its listings are accepted. -/
theorem conflict_of_read (registry : Registry) (text name : String)
    (hgeneral : IsListed text .integer name)
    (hbinary : IsListed text .binary name ∨ (read registry text).1.IsGuarding name) :
    (¬ IsOverruled .integer (sayingsOf registry text name) →
        ∃ p ∈ (read registry text).1.problems, p.Refuses name)
      ∧ (IsOverruled .integer (sayingsOf registry text name) →
        ∀ q ∈ (partsOf text).zip (outcomesOf registry text), ∀ kind,
          q.1.listing? = some (kind, name) → q.2.problem? = none) := by
  have hproper := isProper_start registry
  have hinteger : Kind.integer ≠ .binary := by decide
  obtain ⟨part, hpart, hlisting⟩ := hgeneral
  have hlisted : .listed .integer ∈ sayingsOf registry text name :=
    listed_mem_sayings hpart hlisting
  have hbinary : .listed .binary ∈ sayingsOf registry text name
      ∨ .guarded ∈ sayingsOf registry text name := by
    rcases hbinary with ⟨part', hpart', hlisting'⟩ | ⟨c, hc, g, hg, v, hv, rfl⟩
    · exact .inl (listed_mem_sayings hpart' hlisting')
    · exact .inr (guarded_mem_sayings (outcome_of_constraint hc) hg hv)
  by_cases hname : isName name.toList = true
  · have hagreed := agreed_iff_accepted hproper hname (partsOf text)
    have hstart : (Symbols.start registry).saidKind name = none := rfl
    rw [hstart, show sayings name (.start registry) (partsOf text) = sayingsOf registry text name
      from rfl, agreed_iff hinteger hlisted hbinary] at hagreed
    exact ⟨fun h => refused_of_not_accepted fun hall => h (hagreed.mpr hall), hagreed.mp⟩
  · constructor
    · -- What is no name is refused anyhow.
      intro _
      refine refused_of_not_accepted fun hall => ?_
      obtain ⟨s, hmem⟩ := @exists_mem_zip_answers (.start registry) _ _ hpart
      have hnone := hall _ hmem .integer hlisting
      cases part with
      | word kind line w =>
          cases hlisting
          rw [String.toList_ofList] at hname
          rw [answer, answerWord, if_neg hname] at hnone
          cases hnone
      | _ => cases hlisting
    · rintro ⟨before, after, heq, _⟩
      have hguarded : .guarded ∈ sayingsOf registry text name := by
        rw [heq]
        exact List.mem_append_right _ (List.mem_cons_self ..)
      exact absurd (isName_of_guarded hproper hguarded) hname

/-- The name `b` is used in a guard first and listed as general then. -/
def guardedFirstText : String := "MIN x\nST\n b = 1 -> x >= 3\nGENERAL\n b\n"

theorem guardedFirst_isRefused :
    ∃ p ∈ (read ∅ guardedFirstText).1.problems, p.Refuses "b" := by
  have hgeneral : IsListed guardedFirstText .integer "b" := by decide +kernel
  have hguarding : (read ∅ guardedFirstText).1.IsGuarding "b" := by decide +kernel
  have hsayings : sayingsOf ∅ guardedFirstText "b" = [.guarded, .listed .integer] := by
    decide +kernel
  refine (conflict_of_read ∅ guardedFirstText "b" hgeneral (.inr hguarding)).1 ?_
  rw [hsayings]
  rintro ⟨_ | ⟨y, before⟩, after, heq, hbefore, hafter⟩
  · cases heq
    rcases hafter _ (List.mem_singleton_self _) with h | h <;> cases h
  · obtain ⟨rfl, _⟩ := List.cons_eq_cons.mp heq
    cases hbefore _ (List.mem_cons_self ..)

/-- The same in the other order. -/
def overruledText : String := "MIN\n x\nGENERAL\n b\nST\n b = 1 -> x >= 3\nEND\n"

/-- Nothing is reported, and the variable is binary. -/
theorem overruled_isUnreported :
    IsListed overruledText .integer "b" ∧ (read ∅ overruledText).1.IsGuarding "b"
      ∧ (read ∅ overruledText).1.problems = []
      ∧ ∀ v ∈ (read ∅ overruledText).1.variableSet.toList, v.name = "b" →
        ((read ∅ overruledText).2.attributes v).kind = .binary := by
  refine ⟨by decide +kernel, by decide +kernel, ?_, by decide +kernel⟩
  rw [← List.isEmpty_iff]
  decide +kernel

end LinearProgram.LpText
