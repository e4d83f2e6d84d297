import LinearProgram.Loader
import Mathlib.Data.List.Forall2

/-!
# `LinearProgram.Proofs.Loader.Search`: the first backend that qualifies

A search asks a loader for names one after another. What the loader
answers may depend on what it was asked before, so its `answers` to a
list of names are one list, in step with the names.

* `candidateOrder_spec` says which names are tried and in which order.
* `Searched` is how a search can end. `Searched.cons` is the step, for a
  name that is passed over, and `searched` is the run.
* `adopt_first_qualified` is the search: the first name with an answer
  that qualifies is taken, no later name is asked for, and a search that
  fails explains every name.
-/

set_option autoImplicit false

namespace LinearProgram

/-! ### The order of the names -/

/-- The names to choose from, with repetitions. -/
def LoaderConfig.offered (config : LoaderConfig) : List String :=
  ((config.overrides ++ config.candidates).map Text.trimmed).filter (· ≠ "")

/-- One name after those that have been seen. -/
def keepFirst (seen : List String) (name : String) : List String :=
  if seen.contains name then seen else seen ++ [name]

theorem mem_keepFirst {seen : List String} {name other : String} :
    other ∈ keepFirst seen name ↔ other ∈ seen ∨ other = name := by
  unfold keepFirst
  split
  · rename_i hseen
    rw [List.contains_iff_mem] at hseen
    exact ⟨.inl, fun h => h.elim id fun heq => heq ▸ hseen⟩
  · rw [List.mem_append, List.mem_singleton]

/-- Names are kept in the order in which they come up first. The names
that have been looked at are `before`. -/
theorem foldl_keepFirst (before names seen : List String)
    (hmem : ∀ name, name ∈ seen ↔ name ∈ before)
    (hsorted : seen.Pairwise fun a b => before.idxOf a < before.idxOf b) :
    (∀ name, name ∈ names.foldl keepFirst seen ↔ name ∈ before ++ names)
      ∧ (names.foldl keepFirst seen).Pairwise fun a b =>
        (before ++ names).idxOf a < (before ++ names).idxOf b := by
  induction names generalizing before seen with
  | nil => simpa using ⟨hmem, hsorted⟩
  | cons name rest ih =>
      have hmem' : ∀ other, other ∈ keepFirst seen name ↔ other ∈ before ++ [name] := by
        intro other
        rw [mem_keepFirst, hmem, List.mem_append, List.mem_singleton]
      -- Names that were seen keep the index at which they came up first.
      have hkept : seen.Pairwise fun a b =>
          (before ++ [name]).idxOf a < (before ++ [name]).idxOf b :=
        hsorted.imp_of_mem fun ha hb hlt => by
          rwa [List.idxOf_append_of_mem ((hmem _).mp ha), List.idxOf_append_of_mem ((hmem _).mp hb)]
      have hsorted' : (keepFirst seen name).Pairwise fun a b =>
          (before ++ [name]).idxOf a < (before ++ [name]).idxOf b := by
        unfold keepFirst
        split
        · exact hkept
        · rename_i hnew
          rw [List.contains_iff_mem, hmem] at hnew
          refine List.pairwise_append.mpr ⟨hkept, List.pairwise_singleton _ _, fun a ha b hb => ?_⟩
          rw [List.mem_singleton] at hb
          subst hb
          rw [List.idxOf_append_of_mem ((hmem a).mp ha), List.idxOf_append_of_notMem hnew]
          exact Nat.lt_add_right _ (List.idxOf_lt_length_of_mem ((hmem a).mp ha))
      rw [List.foldl_cons, List.append_cons]
      exact ih (before ++ [name]) (keepFirst seen name) hmem' hsorted'

/-- The names that are tried are those on offer, in the order in which
each comes up first. -/
theorem candidateOrder_spec (config : LoaderConfig) :
    (∀ name, name ∈ config.candidateOrder ↔ name ∈ config.offered)
      ∧ config.candidateOrder.Pairwise fun a b =>
        config.offered.idxOf a < config.offered.idxOf b :=
  foldl_keepFirst [] config.offered [] (fun _ => Iff.rfl) .nil

/-! ### Answers -/

variable {ρ σ : Type}

namespace Loader

/-- A loader that also notes the names that it is asked for. -/
def observed (loader : Loader ρ σ) : Loader (ρ × List String) σ := fun name p =>
  ((loader name p.1).1, ((loader name p.1).2, p.2 ++ [name]))

/-- What a loader answers to names that it is asked for one after another. -/
def answers (loader : Loader ρ σ) : List String → ρ → List (Except String (Engine σ))
  | [], _ => []
  | name :: rest, r => (loader name r).1 :: loader.answers rest (loader name r).2

end Loader

/-- Whether an answer is an engine with every required feature. -/
def Qualifies (required : List Feature) (answer : Except String (Engine σ)) : Prop :=
  ∃ engine, answer = .ok engine ∧ ∀ f ∈ required, engine.backend.features.supports f = true

/-- Whether a line explains why a name was passed over: no engine was
loaded, for the reason that the loader gives, or the line names the
first required feature that the engine lacks. -/
inductive Explains (required : List Feature) (name : String) :
    Except String (Engine σ) → String → Prop
  | notLoaded (reason : String) : Explains required name (.error reason) (name ++ ": " ++ reason)
  | lacks (engine : Engine σ) (before : List Feature) (f : Feature) (after : List Feature)
      (hrequired : required = before ++ f :: after)
      (hbefore : ∀ g ∈ before, engine.backend.features.supports g = true)
      (hlacks : engine.backend.features.supports f = false) :
      Explains required name (.ok engine) (name ++ ": " ++ ("missing feature " ++ f.text))

theorem firstMissing_eq_some_iff {fs : Features} {required : List Feature} {f : Feature} :
    fs.firstMissing required = some f ↔
      fs.supports f = false ∧ ∃ before after, required = before ++ f :: after
        ∧ ∀ g ∈ before, fs.supports g = true := by
  simp [Features.firstMissing, List.find?_eq_some_iff_append]

/-- Why an answer is passed over, unless it qualifies. -/
def rejection? (required : List Feature) : Except String (Engine σ) → Option Rejection
  | .error reason => some (.notLoaded reason)
  | .ok engine => (engine.backend.features.firstMissing required).map .lacks

theorem qualifies_of_rejection?_eq_none {required : List Feature}
    {answer : Except String (Engine σ)} (h : rejection? required answer = none) :
    Qualifies required answer := by
  cases answer with
  | error reason => cases h
  | ok engine =>
      rw [rejection?, Option.map_eq_none_iff, Features.firstMissing_eq_none_iff,
        Features.supportsAll, List.all_eq_true] at h
      exact ⟨engine, rfl, h⟩

/-- A rejection has grounds, and its wording is their explanation. -/
theorem explains_of_rejection?_eq_some {required : List Feature}
    {answer : Except String (Engine σ)} {why : Rejection}
    (h : rejection? required answer = some why) (name : String) :
    ¬ Qualifies required answer ∧ Explains required name answer (name ++ ": " ++ why.text) := by
  cases answer with
  | error reason =>
      cases h
      refine ⟨?_, .notLoaded reason⟩
      rintro ⟨_, ⟨⟩, -⟩
  | ok engine =>
      obtain ⟨f, hmissing, rfl⟩ := Option.map_eq_some_iff.mp h
      obtain ⟨hlacks, before, after, hrequired, hbefore⟩ := firstMissing_eq_some_iff.mp hmissing
      refine ⟨?_, .lacks engine before f after hrequired hbefore hlacks⟩
      rintro ⟨_, ⟨⟩, hall⟩
      have hf : f ∈ required := hrequired ▸ List.mem_append_right _ (List.mem_cons_self ..)
      rw [hall f hf] at hlacks
      cases hlacks

/-! ### The search -/

section Search

variable {required : List Feature} {name : String} {r : ρ}

theorem firstQualified_of_taken (loader : Loader ρ σ) (rest : List String) {engine : Engine σ}
    (hload : (loader name r).1 = .ok engine)
    (h : rejection? required (.ok engine) = none) :
    firstQualified loader required (name :: rest) r = (.ok engine, (loader name r).2) := by
  rw [rejection?, Option.map_eq_none_iff] at h
  rw [firstQualified]
  rcases hanswer : loader name r with ⟨reason | found, r'⟩
  · rw [hanswer] at hload
    cases hload
  · rw [hanswer] at hload
    cases hload
    simp only [h]

theorem firstQualified_of_rejected (loader : Loader ρ σ) (rest : List String) {why : Rejection}
    (h : rejection? required (loader name r).1 = some why) :
    firstQualified loader required (name :: rest) r
      = firstQualified.reject name why (firstQualified loader required rest (loader name r).2) := by
  rw [firstQualified]
  rcases hanswer : loader name r with ⟨reason | found, r'⟩
  · rw [hanswer] at h
    cases h
    rfl
  · rw [hanswer] at h
    obtain ⟨f, hmissing, rfl⟩ := Option.map_eq_some_iff.mp h
    simp only [hmissing]

/-- How a search among names can end: with the engine of the first answer
that qualifies, or with an explanation of every name. The names that
were asked for come after those that had been asked for before. -/
inductive Searched (loader : Loader ρ σ) (required : List Feature) (names : List String) (r : ρ) :
    Prop
  | found (i : Nat) (engine : Engine σ) (r' : ρ)
      (hanswer : (loader.answers names r)[i]? = some (.ok engine))
      (hqualifies : Qualifies required (.ok engine))
      (hfirst : ∀ j < i, ∀ a, (loader.answers names r)[j]? = some a → ¬ Qualifies required a)
      (hrun : firstQualified loader required names r = (.ok engine, r'))
      (hasked : ∀ asked, firstQualified loader.observed required names (r, asked)
        = (.ok engine, (r', asked ++ names.take (i + 1))))
  | exhausted (rejected : List (String × Rejection)) (r' : ρ)
      (hnone : ∀ a ∈ loader.answers names r, ¬ Qualifies required a)
      (hnames : rejected.map (·.1) = names)
      (hexplained : List.Forall₂
        (fun p a => Explains required p.1 a (p.1 ++ ": " ++ p.2.text))
        rejected (loader.answers names r))
      (hrun : firstQualified loader required names r = (.error rejected, r'))
      (hasked : ∀ asked, firstQualified loader.observed required names (r, asked)
        = (.error rejected, (r', asked ++ names)))

/-- The step of a search: a name that is passed over comes before what
is found, or before the other names that are explained. -/
theorem Searched.cons {loader : Loader ρ σ} {rest : List String} {why : Rejection}
    (h : rejection? required (loader name r).1 = some why)
    (hrest : Searched loader required rest (loader name r).2) :
    Searched loader required (name :: rest) r := by
  obtain ⟨hnot, hexplains⟩ := explains_of_rejection?_eq_some h name
  have hplain := firstQualified_of_rejected loader rest h
  have hobserved : ∀ asked, firstQualified loader.observed required (name :: rest) (r, asked)
      = firstQualified.reject name why
        (firstQualified loader.observed required rest ((loader name r).2, asked ++ [name])) :=
    fun asked => firstQualified_of_rejected loader.observed rest h
  cases hrest with
  | found i engine r' hanswer hqualifies hfirst hrun hasked =>
      refine .found (i + 1) engine r' hanswer hqualifies (fun j hj a ha => ?_)
        (by rw [hplain, hrun]; rfl) fun asked => ?_
      · cases j with
        | zero =>
            cases ha
            exact hnot
        | succ j => exact hfirst j (Nat.lt_of_succ_lt_succ hj) a ha
      · rw [hobserved, hasked, List.take_succ_cons, ← List.append_cons]
        rfl
  | exhausted rejected r' hnone hnames hexplained hrun hasked =>
      refine .exhausted ((name, why) :: rejected) r' (fun a ha => ?_)
        (by rw [List.map_cons, hnames]) (.cons hexplains hexplained)
        (by rw [hplain, hrun]; rfl) fun asked => ?_
      · rcases List.mem_cons.mp ha with rfl | ha
        · exact hnot
        · exact hnone a ha
      · rw [hobserved, hasked, ← List.append_cons]
        rfl

/-- The run: a search goes through the names up to the first that
qualifies. -/
theorem searched (loader : Loader ρ σ) (required : List Feature) (names : List String) (r : ρ) :
    Searched loader required names r := by
  induction names generalizing r with
  | nil =>
      refine .exhausted [] r (fun a ha => nomatch ha) rfl .nil rfl fun asked => ?_
      rw [List.append_nil]
      rfl
  | cons name rest ih =>
      rcases hverdict : rejection? required (loader name r).1 with - | why
      · -- The name is taken, so it is the only one that was asked for.
        obtain ⟨engine, hload, hall⟩ := qualifies_of_rejection?_eq_none hverdict
        rw [hload] at hverdict
        refine .found 0 engine _ (congrArg some hload) ⟨engine, rfl, hall⟩
          (fun j hj => absurd hj (Nat.not_lt_zero j))
          (firstQualified_of_taken loader rest hload hverdict) fun asked => ?_
        exact firstQualified_of_taken loader.observed rest hload hverdict
      · exact .cons hverdict (ih _)

end Search

/-- What is said of each pair of a name and an answer holds at each index. -/
theorem exists_of_forall₂ {α β : Type} {R : α → β → Prop} {as : List α} {bs : List β}
    (h : List.Forall₂ R as bs) {i : Nat} {a : α} (ha : as[i]? = some a) :
    ∃ b, bs[i]? = some b ∧ R a b := by
  induction h generalizing i with
  | nil => cases ha
  | cons hfirst _ ih =>
      cases i with
      | zero =>
          cases ha
          exact ⟨_, rfl, hfirst⟩
      | succ i => exact ih ha

section Adopt

variable {config : LoaderConfig} {loader : Loader ρ σ} {r r' : ρ}

theorem adopt_of_nil (h : config.candidateOrder = []) :
    adopt config loader r = (.error .noCandidates, r) := by
  rw [adopt, h]

theorem adopt_of_ok {engine : Engine σ}
    (h : firstQualified loader config.required config.candidateOrder r = (.ok engine, r')) :
    adopt config loader r = (.ok { engine with backend := engine.backend.adopted }, r') := by
  rw [adopt]
  split
  · rename_i hnil
    rw [hnil] at h
    cases h
  · rw [h]

theorem adopt_of_error (hne : config.candidateOrder ≠ []) {rejected : List (String × Rejection)}
    (h : firstQualified loader config.required config.candidateOrder r = (.error rejected, r')) :
    adopt config loader r = (.error (.exhausted rejected), r') := by
  rw [adopt]
  split
  · rename_i hnil
    exact absurd hnil hne
  · rw [h]

end Adopt

/-- The first backend that qualifies is adopted, and nothing else is
asked for. The names that are tried are those on offer without blanks
around them and without empty ones, the overrides before the others,
each at its first occurrence. An engine is adopted if and only if one of
the answers qualifies. It is the engine of the first answer that does,
with its features, and the loader has been asked for the names up to
that one, in order. Without names the loader is not asked. A search that
fails otherwise has asked for every name and explains each of them. -/
theorem adopt_first_qualified (config : LoaderConfig) (loader : Loader ρ σ) (r : ρ) :
    ((∀ name, name ∈ config.candidateOrder ↔ name ∈ config.offered)
        ∧ config.candidateOrder.Pairwise fun a b =>
          config.offered.idxOf a < config.offered.idxOf b)
      ∧ ((∃ engine, (adopt config loader r).1 = .ok engine)
        ↔ ∃ a ∈ loader.answers config.candidateOrder r, Qualifies config.required a)
      ∧ (∀ engine, (adopt config loader r).1 = .ok engine →
        ∃ (i : Nat) (found : Engine σ),
          (loader.answers config.candidateOrder r)[i]? = some (.ok found)
          ∧ Qualifies config.required (.ok found)
          ∧ (∀ j < i, ∀ a, (loader.answers config.candidateOrder r)[j]? = some a →
            ¬ Qualifies config.required a)
          ∧ adopt config loader.observed (r, [])
            = (.ok engine, ((adopt config loader r).2, config.candidateOrder.take (i + 1)))
          ∧ engine = { found with backend := found.backend.adopted }
          ∧ engine.backend.features = found.backend.features)
      ∧ (config.candidateOrder = [] →
        adopt config loader.observed (r, []) = (.error .noCandidates, (r, [])))
      ∧ (config.candidateOrder ≠ [] → ∀ e, (adopt config loader r).1 = .error e →
        adopt config loader.observed (r, [])
            = (.error e, ((adopt config loader r).2, config.candidateOrder))
          ∧ (∃ rejected, e = .exhausted rejected)
          ∧ e.tried = config.candidateOrder
          ∧ e.reasons.length = config.candidateOrder.length
          ∧ ∀ (i : Nat) (name : String), config.candidateOrder[i]? = some name →
            ∃ answer reason, (loader.answers config.candidateOrder r)[i]? = some answer
              ∧ e.reasons[i]? = some reason ∧ Explains config.required name answer reason) := by
  refine ⟨candidateOrder_spec config, ?_⟩
  cases searched loader config.required config.candidateOrder r with
  | found i found r' hanswer hqualifies hfirst hrun hasked =>
      have hadopt := adopt_of_ok hrun
      have hobserved := adopt_of_ok (hasked [])
      have hsome : config.candidateOrder ≠ [] := fun hnil => by
        rw [hnil] at hanswer
        cases hanswer
      rw [hadopt, hobserved]
      refine ⟨⟨fun _ => ⟨_, List.mem_of_getElem? hanswer, hqualifies⟩, fun _ => ⟨_, rfl⟩⟩,
        ?_, fun hnil => absurd hnil hsome, nofun⟩
      rintro engine ⟨⟩
      exact ⟨i, found, hanswer, hqualifies, hfirst, rfl, rfl, rfl⟩
  | exhausted rejected r' hnone hnames hexplained hrun hasked =>
      have hanswers : ¬ ∃ a ∈ loader.answers config.candidateOrder r,
          Qualifies config.required a := fun ⟨a, ha, hqualifies⟩ => hnone a ha hqualifies
      by_cases hnil : config.candidateOrder = []
      · rw [adopt_of_nil hnil, adopt_of_nil hnil]
        exact ⟨⟨nofun, fun h => absurd h hanswers⟩, nofun, fun _ => rfl, fun h => absurd hnil h⟩
      · rw [adopt_of_error hnil hrun, adopt_of_error hnil (hasked [])]
        refine ⟨⟨nofun, fun h => absurd h hanswers⟩, nofun, fun h => absurd h hnil, ?_⟩
        rintro - _ ⟨⟩
        refine ⟨rfl, ⟨rejected, rfl⟩, hnames, ?_, fun i name hname => ?_⟩
        · rw [LoadError.reasons, List.length_map, ← hnames, List.length_map]
        · rw [← hnames, List.getElem?_map, Option.map_eq_some_iff] at hname
          obtain ⟨p, hp, rfl⟩ := hname
          obtain ⟨answer, hanswer, hexplains⟩ := exists_of_forall₂ hexplained hp
          refine ⟨answer, _, hanswer, ?_, hexplains⟩
          rw [LoadError.reasons, List.getElem?_map, hp, Option.map_some]

end LinearProgram
