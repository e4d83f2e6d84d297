import LinearProgram.Proofs.LpText.Accounted.Declarations

/-!
# `LinearProgram.Proofs.LpText.Rejected.States`: two states of a reader

A text is read in one state, and a part of it in another one. The first
state may know more names, so that its variables were created at other
places, and of one name it may say more: that it is binary.

* `Symbols.Mirrors` is the relation between the two. The variable of a
  name is found in the other state by the name (`Symbols.namesake`).
* `Later` says that two states have come out of two earlier ones.
* Whatever is done in both states leaves such states behind: a name is
  mentioned, gets bounds, becomes binary in a guard, or is declared
  (`Mirrors.mention` and so on). Lines may differ.
-/

set_option autoImplicit false

namespace LinearProgram.LpText

/-! ### States -/

namespace Symbols

/-- The variable of this state that has the name of another one. -/
def namesake (t : Symbols) (v : Variable) : Variable := (t.mention v.name).1

theorem name_namesake (t : Symbols) (v : Variable) : (t.namesake v).name = v.name :=
  t.name_mention v.name

theorem namesake_of_mem {t : Symbols} {v w : Variable} (hw : w ∈ t.variableSet)
    (hname : w.name = v.name) : t.namesake v = w := by
  rw [namesake, ← hname, mention_of_mem hw]

/-- The kind of a name, and the bounds, without the lines where they
have been declared. -/
def saidKind (s : Symbols) (name : String) : Option Kind := (s.kindOf name).map (·.1)

def saidBounds (s : Symbols) (name : String) : Option (Float × Float) :=
  (s.boundsOf name).map fun b => (b.lower, b.upper)

/-- Whether the state `t` has all the names of `s`, and says the same of
every name, except that it says of one that it is binary. -/
structure Mirrors (forced : Option String) (s t : Symbols) : Prop where
  left : s.IsSound
  right : t.IsSound
  known : ∀ v ∈ s.variableSet, t.namesake v ∈ t.variableSet
  bounds : ∀ name, s.saidBounds name = t.saidBounds name
  kind : ∀ name, forced ≠ some name → s.saidKind name = t.saidKind name
  forced : ∀ name, forced = some name → t.saidKind name = some .binary

variable {forced : Option String} {s t s' t' : Symbols}

theorem Mirrors.refl (h : s.IsSound) : s.Mirrors none s where
  left := h
  right := h
  known v hv := by
    rw [namesake_of_mem hv rfl]
    exact hv
  bounds _ := rfl
  kind _ _ := rfl
  forced _ hname := nomatch hname

theorem Mirrors.namesake_injective (v w : Variable) (hv : v ∈ s.variableSet)
    (hw : w ∈ s.variableSet) (h : t.namesake v = t.namesake w) : v = w := by
  refine VariableSet.eq_of_name_eq hv hw ?_
  rw [← t.name_namesake v, h, t.name_namesake]

theorem Mirrors.namesake_eq (h : s.Mirrors forced t) (hgrows : t.Grows t') {v : Variable}
    (hv : v ∈ s.variableSet) : t'.namesake v = t.namesake v :=
  namesake_of_mem (hgrows.mem (h.known v hv)) (t.name_namesake v)

/-- What two states have of two earlier ones. -/
structure Later (forced : Option String) (s t s' t' : Symbols) : Prop where
  left : s.Grows s'
  right : t.Grows t'
  mirrors : s'.Mirrors forced t'

theorem Later.refl (h : s.Mirrors forced t) : Later forced s t s t := ⟨.refl s, .refl t, h⟩

theorem Later.trans {s'' t'' : Symbols} (h : Later forced s t s' t')
    (h' : Later forced s' t' s'' t'') : Later forced s t s'' t'' :=
  ⟨h.left.trans h'.left, h.right.trans h'.right, h'.mirrors⟩

/-- What is said of names may change where no variables are added. -/
theorem Mirrors.later (h : s.Mirrors forced t) (hs : s.Grows s') (ht : t.Grows t')
    (hmem : ∀ v ∈ s'.variableSet, v ∈ s.variableSet)
    (hbounds : ∀ name, s'.saidBounds name = t'.saidBounds name)
    (hkind : ∀ name, forced ≠ some name → s'.saidKind name = t'.saidKind name)
    (hforced : ∀ name, forced = some name → t'.saidKind name = some .binary) :
    Later forced s t s' t' := by
  refine ⟨hs, ht, hs.sound h.left, ht.sound h.right, fun v hv => ?_, hbounds, hkind, hforced⟩
  rw [h.namesake_eq ht (hmem v hv)]
  exact ht.mem (h.known v (hmem v hv))

theorem saidKind_mention (s : Symbols) (name n : String) :
    (s.mention name).2.saidKind n = s.saidKind n :=
  congrArg (Option.map _) (s.kindOf_mention name n)

theorem saidBounds_mention (s : Symbols) (name n : String) :
    (s.mention name).2.saidBounds n = s.saidBounds n :=
  congrArg (Option.map _) (s.boundsOf_mention name n)

theorem namesake_mention (s t : Symbols) (name : String) :
    (t.mention name).2.namesake (s.mention name).1 = (t.mention name).1 :=
  namesake_of_mem (t.mem_mention name) ((t.name_mention name).trans (s.name_mention name).symm)

/-- A name is mentioned in both states. -/
theorem Mirrors.mention (h : s.Mirrors forced t) (name : String) :
    Later forced s t (s.mention name).2 (t.mention name).2 := by
  refine ⟨s.grows_mention name, t.grows_mention name, isSound_mention h.left name,
    isSound_mention h.right name, fun v hv => ?_, fun n => ?_, fun n hn => ?_, fun n hn => ?_⟩
  · rcases mem_mention_iff.mp hv with hv | rfl
    · rw [h.namesake_eq (t.grows_mention name) hv]
      exact mem_mention_iff.mpr (.inl (h.known v hv))
    · rw [namesake_mention]
      exact t.mem_mention name
  · rw [saidBounds_mention, saidBounds_mention, h.bounds]
  · rw [saidKind_mention, saidKind_mention, h.kind n hn]
  · rw [saidKind_mention, h.forced n hn]

/-- New bounds depend on the old ones alone. -/
theorem saidBounds_declareBounds (s : Symbols) (name : String) (lower upper : Option Float)
    (line : Nat) (n : String) :
    (s.declareBounds name lower upper line).saidBounds n
      = if n = name then
          some (lower.getD (((s.saidBounds name).map (·.1)).getD 0),
            upper.getD (((s.saidBounds name).map (·.2)).getD Binary64.infinity))
        else s.saidBounds n := by
  rw [saidBounds, boundsOf_declareBounds]
  split
  · rw [saidBounds]
    cases s.boundsOf name <;> rfl
  · rfl

theorem mem_declareBounds_iff {name : String} {lower upper : Option Float} {line : Nat}
    {v : Variable} :
    v ∈ (s.declareBounds name lower upper line).variableSet
      ↔ v ∈ (s.mention name).2.variableSet := mem_note_iff

/-- Bounds are given to a name in both states, maybe on different lines. -/
theorem Mirrors.declareBounds (h : s.Mirrors forced t) (name : String)
    (lower upper : Option Float) (line line' : Nat) :
    Later forced s t (s.declareBounds name lower upper line)
      (t.declareBounds name lower upper line') := by
  have hkind : ∀ (s : Symbols) (line : Nat) (n : String),
      (s.declareBounds name lower upper line).saidKind n = s.saidKind n :=
    fun s line n => congrArg (Option.map _) (s.kindOf_declareBounds name lower upper line n)
  have hgrows : ∀ (s : Symbols) (line : Nat),
      (s.mention name).2.Grows (s.declareBounds name lower upper line) := fun s line =>
    grows_note fun _ _ => ⟨rfl, fun k old hk => ⟨k, old, hk, id⟩, fun _ => rfl⟩
  have hmention := h.mention name
  refine hmention.trans (hmention.mirrors.later (hgrows s line) (hgrows t line')
    (fun v => mem_declareBounds_iff.mp) (fun n => ?_) (fun n hn => ?_) fun n hn => ?_)
  · rw [saidBounds_declareBounds, saidBounds_declareBounds, h.bounds, h.bounds]
  · rw [hkind, hkind, h.kind n hn]
  · rw [hkind, h.forced n hn]

/-- A kind is declared of a known name. -/
theorem saidKind_declareKind {v : Variable} (hv : v ∈ s.variableSet) (kind : Kind) (line : Nat)
    (n : String) :
    (s.declareKind v.name kind line).saidKind n
      = if n = v.name then some kind else s.saidKind n := by
  obtain ⟨e, he, _⟩ := mem_variableSet_iff.mp hv
  rw [saidKind, kindOf_declareKind, he]
  split <;> rfl

theorem mem_declareKind_iff {name : String} {kind : Kind} {line : Nat} {w : Variable} :
    w ∈ (s.declareKind name kind line).variableSet ↔ w ∈ s.variableSet := by
  rw [declareKind, mem_note_iff]

theorem mem_declareGuard_iff {line : Nat} {v w : Variable} :
    w ∈ (declareGuard line v s).variableSet ↔ w ∈ s.variableSet := mem_declareKind_iff

/-- The variable of a guard becomes binary. -/
theorem saidKind_declareGuard {v : Variable} (hv : v ∈ s.variableSet) (line : Nat) (n : String) :
    (declareGuard line v s).saidKind n = if n = v.name then some .binary else s.saidKind n :=
  saidKind_declareKind (s := s.mapRegistry fun r => r.update v fun a =>
    { a with kind := .binary, lower := 0, upper := 1 }) hv .binary line n

theorem saidBounds_declareGuard (s : Symbols) (line : Nat) (v : Variable) (n : String) :
    (declareGuard line v s).saidBounds n = s.saidBounds n :=
  congrArg (Option.map _) ((s.retains_declareGuard line v).bounds n)

/-- The variable of a guard becomes binary in both states. -/
theorem Mirrors.declareGuard (h : s.Mirrors forced t) {v : Variable} (hv : v ∈ s.variableSet)
    (line line' : Nat) :
    Later forced s t (LpText.declareGuard line v s)
      (LpText.declareGuard line' (t.namesake v) t) := by
  refine h.later (s.grows_declareGuard line v) (t.grows_declareGuard line' _)
    (fun w => mem_declareGuard_iff.mp) (fun n => ?_) (fun n hn => ?_) fun n hn => ?_
  · rw [saidBounds_declareGuard, saidBounds_declareGuard, h.bounds]
  · rw [saidKind_declareGuard hv, saidKind_declareGuard (h.known v hv), name_namesake,
      h.kind n hn]
  · rw [saidKind_declareGuard (h.known v hv), h.forced n hn]
    split <;> rfl

/-- A name is declared to be of a kind, unless it is of another one. -/
theorem snd_answerWord (kind : Kind) (line : Nat) {word : List Char} (h : isName word = true)
    (s : Symbols) :
    (answerWord kind line word s).2
      = if (s.saidKind (String.ofList word)).getD kind = kind then
          (s.mention (String.ofList word)).2.declareKind (String.ofList word) kind line
        else (s.mention (String.ofList word)).2 := by
  rw [answerWord, if_pos h]
  dsimp only
  rw [kindOf_mention, saidKind]
  cases s.kindOf (String.ofList word) with
  | none => exact (if_pos rfl).symm
  | some p =>
      dsimp only [Option.map_some, Option.getD_some]
      split <;> rfl

theorem saidKind_answerWord (kind : Kind) (line : Nat) {word : List Char}
    (h : isName word = true) (s : Symbols) (n : String) :
    (answerWord kind line word s).2.saidKind n
      = if n = String.ofList word then some ((s.saidKind n).getD kind) else s.saidKind n := by
  rw [snd_answerWord kind line h]
  have hdeclare := saidKind_declareKind (s.mem_mention (String.ofList word)) kind line n
  rw [s.name_mention, saidKind_mention] at hdeclare
  split
  · rename_i hkind
    rw [hdeclare]
    split
    · rename_i hn
      rw [hn, hkind]
    · rfl
  · rename_i hkind
    rw [saidKind_mention]
    split
    · rename_i hn
      rw [← hn] at hkind
      cases hsaid : s.saidKind n with
      | none =>
          rw [hsaid] at hkind
          exact absurd rfl hkind
      | some k => rfl
    · rfl

/-- Declaring a word adds its variable, and takes no kind away. -/
theorem grows_answerWord (kind : Kind) (line : Nat) {word : List Char} (h : isName word = true)
    (s : Symbols) :
    (s.mention (String.ofList word)).2.Grows (answerWord kind line word s).2
      ∧ ∀ v, v ∈ (answerWord kind line word s).2.variableSet →
        v ∈ (s.mention (String.ofList word)).2.variableSet := by
  rw [snd_answerWord kind line h]
  split
  · rename_i hkind
    refine ⟨grows_declareKind line fun e old he hbinary => ?_, fun v => mem_declareKind_iff.mp⟩
    have hsaid : (s.mention (String.ofList word)).2.saidKind (String.ofList word)
        = some .binary := by
      rw [saidKind, kindOf, he]
      show (e.kind.map _) = _
      rw [hbinary]
      rfl
    rw [saidKind_mention] at hsaid
    rw [hsaid] at hkind
    exact hkind.symm
  · exact ⟨.refl _, fun v hv => hv⟩

/-- A word is to be declared in both states. It may be refused in the
second one alone, where its variable stays binary. -/
theorem Mirrors.answerWord (h : s.Mirrors forced t) (kind : Kind) (line line' : Nat)
    (word : List Char) :
    Later forced s t (answerWord kind line word s).2 (answerWord kind line' word t).2 := by
  by_cases hname : isName word = true
  · have hmention := h.mention (String.ofList word)
    have hbounds : ∀ (s : Symbols) (line : Nat) (n : String),
        (LpText.answerWord kind line word s).2.saidBounds n = s.saidBounds n :=
      fun s line n => congrArg (Option.map _) ((retains_answerWord kind line word s).bounds n)
    obtain ⟨hs, hmem⟩ := grows_answerWord kind line hname s
    obtain ⟨ht, _⟩ := grows_answerWord kind line' hname t
    refine hmention.trans (hmention.mirrors.later hs ht hmem (fun n => ?_) (fun n hn => ?_)
      fun n hn => ?_)
    · rw [hbounds, hbounds, h.bounds]
    · rw [saidKind_answerWord kind line hname, saidKind_answerWord kind line' hname, h.kind n hn]
    · rw [saidKind_answerWord kind line' hname, h.forced n hn]
      split <;> rfl
  · rw [LpText.answerWord, LpText.answerWord, if_neg hname, if_neg hname]
    exact .refl h

end Symbols

end LinearProgram.LpText
