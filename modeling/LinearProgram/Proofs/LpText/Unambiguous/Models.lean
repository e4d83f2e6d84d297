import LinearProgram.Proofs.LpText.Unambiguous.Domains
import LinearProgram.Proofs.Model.Construction

/-!
# `LinearProgram.Proofs.LpText.Unambiguous.Models`: a written model is known from its text

The text of a model is the key under which its solutions are cached, so
two models of one text must have the same solutions.
`isImage_of_write_eq` shows that they are one model up to handles, if
they are as `Model.IsIdentifiable` asks: names are names, guards have no
names of their own, numbers are finite, and no name stands for two of
the variables that occur.

Where names may be any texts this is false: `sameText_of_signedName`
gives two models with the same variables and the same text. Nor can the
names of guards be allowed (`sameText_of_guardName`), or two variables
of one name where one of them is in the guard of a guard
(`sameText_of_nestedName`).
-/

set_option autoImplicit false

namespace LinearProgram

open Decimal (plain)

/-! ### Models whose text can be told apart -/

/-- Whether all bounds are finite. -/
def Shape.IsFinite (shape : Shape Float) : Prop := shape.ForBounds (·.isFinite = true)

namespace Constraint

/-- Whether all numbers of a constraint and of its guards are finite. -/
def IsFinite : Constraint Float → Prop
  | plain row => row.shape.IsFinite ∧ row.term.IsFinite
  | guarded guard row => guard.IsFinite ∧ row.shape.IsFinite ∧ row.term.IsFinite

/-- Whether no guard has a name of its own. -/
def HasUnnamedGuards : Constraint Float → Prop
  | plain _ => True
  | guarded guard _ => guard.name = none ∧ guard.HasUnnamedGuards

end Constraint

/-- What a model must fulfil to be known from its text. The operations
on constraints ensure the first, and a solver the last for the variables
that it registers. -/
structure Model.IsIdentifiable (m : Model) : Prop where
  built : ∀ c ∈ m.constraints, c.IsBuilt
  namedObjective : m.objective.term.IsNamed
  named : ∀ c ∈ m.constraints, c.IsNamed
  unnamedGuards : ∀ c ∈ m.constraints, c.HasUnnamedGuards
  finiteObjective : m.objective.term.IsFinite
  finite : ∀ c ∈ m.constraints, c.IsFinite
  distinct : ∀ v w, m.Occurs v → m.Occurs w → v.name = w.name → v = w

theorem Shape.isLegible_normalize {shape : Shape Float} (hbuilt : shape.IsBuilt)
    (hfinite : shape.IsFinite) {offset : Float} (hoffset : offset.isFinite = true) :
    (shape.normalize offset).IsLegible := by
  have hnormal := hbuilt.normalize offset
  cases shape with
  | left bound relation => exact ⟨hnormal, Binary64.isNaN_sub_of_isFinite hfinite hoffset⟩
  | right relation bound => exact ⟨hnormal, Binary64.isNaN_sub_of_isFinite hfinite hoffset⟩
  | equal bound => exact Binary64.isNaN_sub_of_isFinite hfinite hoffset
  | range lower l r upper =>
      exact ⟨Binary64.isNaN_sub_of_isFinite hfinite.1 hoffset, Binary64.isNaN_sub_of_isFinite hfinite.2 hoffset⟩

namespace Constraint

/-- A guard is an equation, so it can be read off its words as it stands. -/
theorem IsSwitch.isLegible {row : Row Float} (hswitch : (plain row).IsSwitch)
    (hnamed : row.term.IsNamed ∧ ∀ name, row.name = some name → LpText.isName name.toList = true)
    (hfinite : row.shape.IsFinite ∧ row.term.IsFinite) : row.IsLegible := by
  obtain ⟨bound, hshape⟩ := hswitch.shape_eq
  have hshape : row.shape = .equal bound := hshape
  refine ⟨?_, hnamed.1, hfinite.2, hnamed.2⟩
  have hbound := hfinite.1
  rw [hshape] at hbound ⊢
  exact Binary64.isNaN_of_isFinite hbound

theorem IsBuilt.isLegible_of_isSwitch {c : Constraint Float} (hbuilt : c.IsBuilt)
    (hswitch : c.IsSwitch) (hnamed : c.IsNamed) (hguards : c.HasUnnamedGuards)
    (hfinite : c.IsFinite) : c.IsLegible := by
  induction c with
  | plain row => exact hswitch.isLegible hnamed hfinite
  | guarded guard row ih =>
      refine ⟨ih hbuilt.1 hbuilt.2.1 hnamed.1 hguards.2 hfinite.1, hguards.1, ?_⟩
      exact @IsSwitch.isLegible row hswitch hnamed.2 hfinite.2

theorem IsBuilt.isLegible_normalize {c : Constraint Float} (hbuilt : c.IsBuilt)
    (hnamed : c.IsNamed) (hguards : c.HasUnnamedGuards) (hfinite : c.IsFinite) :
    c.normalize.IsLegible := by
  have hzero : (0 : Float).isFinite = true := by decide
  cases c with
  | plain row =>
      exact ⟨Shape.isLegible_normalize hbuilt hfinite.1 hfinite.2.2, hnamed.1,
        ⟨hfinite.2.1, hzero⟩, hnamed.2⟩
  | guarded guard row =>
      refine ⟨hbuilt.1.isLegible_of_isSwitch hbuilt.2.1 hnamed.1 hguards.2 hfinite.1, hguards.1,
        Shape.isLegible_normalize hbuilt.2.2 hfinite.2.1 hfinite.2.2.2, hnamed.2.1,
        ⟨hfinite.2.2.1, hzero⟩, hnamed.2.2⟩

end Constraint

namespace LpText

open Text (IsWord)

theorem isAlike_constraints {cs ds : List (Constraint Float)}
    (hcs : ∀ c ∈ cs, c.normalize.IsLegible) (hds : ∀ d ∈ ds, d.normalize.IsLegible)
    (h : cs.map (fun c => c.normalize.words) = ds.map fun d => d.normalize.words) :
    List.Forall₂ (fun c d => c.normalize.IsAlike d.normalize) cs ds := by
  induction cs generalizing ds with
  | nil =>
      cases ds with
      | nil => exact .nil
      | cons d ds => cases h
  | cons c cs ih =>
      cases ds with
      | nil => cases h
      | cons d ds =>
          obtain ⟨hhead, htail⟩ := List.cons.inj h
          exact .cons
            (Constraint.isAlike_of_words (hcs c (List.mem_cons_self ..))
              (hds d (List.mem_cons_self ..)) hhead)
            (ih (fun b hb => hcs b (List.mem_cons_of_mem _ hb))
              (fun b hb => hds b (List.mem_cons_of_mem _ hb)) htail)

/-- The sections of a model that can be identified are made of words. -/
theorem isWordy_of_isIdentifiable {r : Registry} {m : Model} {s : VariableSet}
    (hs : ∀ v ∈ s, isName v.name.toList = true) (h : m.IsIdentifiable) :
    (Sections.ofModel r m s).IsWordy := Sections.isWordy_ofModel h.namedObjective h.named hs

/-- The variables that occur in a model with proper names have them. -/
theorem isName_of_occurs {c : Constraint Float} (h : c.IsNamed) {v : Variable} (hv : c.Occurs v) :
    isName v.name.toList = true := by
  induction c with
  | plain row => exact h.1 v hv
  | guarded guard row ih =>
      rcases hv with hv | hv
      · exact h.2.1 v hv
      · exact ih h.1 hv

theorem isName_of_mem {m : Model} {s : VariableSet} (hs : m.variableSet = .ok s)
    (h : m.IsIdentifiable) {v : Variable} (hv : v ∈ s) : isName v.name.toList = true := by
  rcases ((Model.mem_variableSet_iff hs v).mp hv).occurs with hv | ⟨c, hc, hv⟩
  · exact h.namedObjective v hv
  · exact isName_of_occurs (h.named c hc) hv

/-- A model is known from its text. Two models with one text, written
with the variables that they register, are the same up to handles: there
is a bijection between the variables that occur in them, at any depth,
that keeps names and takes the one model to the other, and the variables
that are registered have the same kinds and, as numbers, the same
bounds. -/
theorem isImage_of_write_eq {r r' : Registry} {m m' : Model} {s s' : VariableSet}
    (hs : m.variableSet = .ok s) (hs' : m'.variableSet = .ok s')
    (hm : m.IsIdentifiable) (hm' : m'.IsIdentifiable)
    (hbounds : ∀ v ∈ s, HasBounds r v) (hbounds' : ∀ v ∈ s', HasBounds r' v)
    (h : write r m s = write r' m' s') :
    ∃ f, IsRenaming f m.Occurs m'.Occurs ∧ m.IsImage f m'
      ∧ ∀ v ∈ s, (r.attributes v).SameDomain (r'.attributes (f v)) := by
  have hnames := fun v (hv : v ∈ s) => isName_of_mem hs hm hv
  have hnames' := fun v (hv : v ∈ s') => isName_of_mem hs' hm' hv
  have hwordy := isWordy_of_isIdentifiable (r := r) hnames hm
  have hwordy' := isWordy_of_isIdentifiable (r := r') hnames' hm'
  -- The texts have the same sections.
  have hlines := congrArg String.toList h
  rw [write_toList, write_toList] at hlines
  have hsections := Sections.lines_injective hwordy hwordy'
    (Text.stacked_injective (Sections.isLine_of_mem_lines hwordy)
      (Sections.isLine_of_mem_lines hwordy') hlines)
  have halike : m.IsAlike m' := by
    refine ⟨congrArg Sections.sense hsections, ?_, ?_⟩
    · exact Term.isAlike_of_words hm.namedObjective hm'.namedObjective hm.finiteObjective
        hm'.finiteObjective (congrArg Sections.objective hsections)
    · exact isAlike_constraints
        (fun c hc => (hm.built c hc).isLegible_normalize (hm.named c hc)
          (hm.unnamedGuards c hc) (hm.finite c hc))
        (fun c hc => (hm'.built c hc).isLegible_normalize (hm'.named c hc)
          (hm'.unnamedGuards c hc) (hm'.finite c hc))
        (congrArg Sections.constraints hsections)
  obtain ⟨f, hf, himage⟩ := halike.exists_renaming hm.distinct hm'.distinct
  refine ⟨f, hf, himage, fun v hv => ?_⟩
  -- The image of a registered variable is registered too.
  have hshallow := (Model.mem_variableSet_iff hs v).mp hv
  obtain ⟨w, hw, hname⟩ := halike.exists_name_shallow hshallow
  have hfw : f v = w := hm'.distinct (f v) w ((hf.onto (f v)).mpr ⟨v, hshallow.occurs, rfl⟩)
    hw.occurs ((hf.name v hshallow.occurs).trans hname.symm)
  have hw := (Model.mem_variableSet_iff hs' w).mpr hw
  obtain ⟨hlower, hupper⟩ := bounds_eq_of_words
    (fun u hu => ⟨hnames u hu, hbounds u hu⟩) (fun u hu => ⟨hnames' u hu, hbounds' u hu⟩)
    (congrArg Sections.bounds hsections) hv hw hname
  rw [hfw]
  exact ⟨kind_eq_of_names (namesOfKind_of_words (congrArg Sections.binary hsections))
    (namesOfKind_of_words (congrArg Sections.general hsections)) hv hw hname, hlower, hupper⟩

/-- The model that makes `x` small and bounds it by 3 where `b` is set,
for two handles of these names. -/
def switchedBound (i j : Nat) : Model :=
  ⟨⟨.minimize, .ofVariable ⟨j, "x"⟩⟩,
    [.guarded (.right (.ofVariable ⟨i, "b"⟩) .equal 1)
      ⟨.right .atMost 3, .ofVariable ⟨j, "x"⟩, none⟩]⟩

theorem mem_ofVariable {v w : Variable} (h : v ∈ (Term.ofVariable (K := Float) w).occurring) :
    v = w := List.mem_singleton.mp h

theorem switchedBound_occurs {i j : Nat} {v : Variable} (h : (switchedBound i j).Occurs v) :
    v = ⟨j, "x"⟩ ∨ v = ⟨i, "b"⟩ := by
  rcases h with h | ⟨c, hc, h⟩
  · exact .inl (mem_ofVariable h)
  · rw [List.mem_singleton.mp hc] at h
    rcases h with h | h
    · exact .inl (mem_ofVariable h)
    · exact .inr (mem_ofVariable h)

theorem switchedBound_isIdentifiable (i j : Nat) : (switchedBound i j).IsIdentifiable := by
  have hnamed : ∀ (k : Nat) (name : String), isName name.toList = true →
      (Term.ofVariable (K := Float) ⟨k, name⟩).IsNamed := by
    intro k name hname v hv
    rw [mem_ofVariable hv]
    exact hname
  have hfinite : ∀ w : Variable, (Term.ofVariable (K := Float) w).IsFinite := by
    intro w
    refine ⟨fun p hp => ?_, show (0 : Float).isFinite = true by decide⟩
    rw [List.mem_singleton.mp hp]
    show (1 : Float).isFinite = true
    decide
  have hx := hnamed j "x" (by decide)
  have hb := hnamed i "b" (by decide)
  refine ⟨?_, hx, ?_, ?_, hfinite _, ?_, ?_⟩
  · intro c hc
    rw [List.mem_singleton.mp hc]
    have hone : Constraint.switchValue? (.equal (1 : Float)) = some 1 := by decide +kernel
    have hlone : ((0 : Float) == 0 && (1 : Float) == 1) = true := by decide
    exact ⟨trivial, ⟨⟨1, hone⟩, ⟨i, "b"⟩, if_pos hlone⟩, nofun⟩
  · intro c hc
    rw [List.mem_singleton.mp hc]
    exact ⟨⟨hb, nofun⟩, hx, nofun⟩
  · intro c hc
    rw [List.mem_singleton.mp hc]
    exact ⟨rfl, trivial⟩
  · intro c hc
    rw [List.mem_singleton.mp hc]
    exact ⟨⟨show (1 : Float).isFinite = true by decide, hfinite _⟩,
      show (3 : Float).isFinite = true by decide, hfinite _⟩
  · intro v w hv hw hname
    rcases switchedBound_occurs hv with rfl | rfl <;>
      rcases switchedBound_occurs hw with rfl | rfl
    · rfl
    · exact absurd (show "x" = "b" from hname) (by decide)
    · exact absurd (show "b" = "x" from hname) (by decide)
    · rfl

/-- Both orders of creation give one text. -/
theorem switchedBound_of_write_eq :
    ∃ s s', (switchedBound 0 1).variableSet = .ok s ∧ (switchedBound 1 0).variableSet = .ok s'
      ∧ ∃ f, IsRenaming f (switchedBound 0 1).Occurs (switchedBound 1 0).Occurs
        ∧ (switchedBound 0 1).IsImage f (switchedBound 1 0)
        ∧ ∀ v ∈ s, (Registry.attributes ⟨#[.binary, .free .integer]⟩ v).SameDomain
            (Registry.attributes ⟨#[.free .integer, .binary]⟩ (f v)) := by
  have hbounds : ∀ {r : Registry} {i j : Nat} {s : VariableSet},
      (switchedBound i j).variableSet = .ok s → HasBounds r ⟨i, "b"⟩ → HasBounds r ⟨j, "x"⟩ →
      ∀ v ∈ s, HasBounds r v := by
    intro r i j s hs hb hx v hv
    rcases switchedBound_occurs ((Model.mem_variableSet_iff hs v).mp hv).occurs with rfl | rfl
    · exact hx
    · exact hb
  refine ⟨_, _, rfl, rfl, isImage_of_write_eq rfl rfl (switchedBound_isIdentifiable 0 1)
    (switchedBound_isIdentifiable 1 0) (hbounds (i := 0) (j := 1) rfl ?_ ?_)
    (hbounds (i := 1) (j := 0) rfl ?_ ?_) (by decide +kernel)⟩
  · exact ⟨by decide, by decide⟩
  · exact ⟨by decide, by decide⟩
  · exact ⟨by decide, by decide⟩
  · exact ⟨by decide, by decide⟩

/-- A name that begins with a minus sign is written like a variable with
the coefficient -1: two models of one text, with the same two variables,
that are no images of one another. -/
theorem sameText_of_signedName :
    ∃ (x y : Variable) (r₁ r : Registry) (m m' : Model) (s s' : VariableSet),
      Registry.createReal ∅ "x" 0 5 = .ok (x, r₁) ∧ r₁.createReal "-x" 0 5 = .ok (y, r)
      ∧ m = ⟨⟨.maximize, .ofVariable y⟩, [.right (.weighted x (-1)) .atLeast (-1)]⟩
      ∧ m' = ⟨⟨.maximize, .weighted x (-1)⟩, [.right (.ofVariable y) .atLeast (-1)]⟩
      ∧ m.variableSet = .ok s ∧ m'.variableSet = .ok s' ∧ write r m s = write r m' s'
      ∧ ¬ ∃ f, IsRenaming f m.Occurs m'.Occurs ∧ m.IsImage f m' := by
  refine ⟨_, _, _, _, _, _, _, _, rfl, rfl, rfl, rfl, rfl, rfl, by decide +kernel, ?_⟩
  rintro ⟨f, _, himage⟩
  -- One objective has the coefficient 1, the other one -1.
  have hget : (Term.weighted (⟨0, "x"⟩ : Variable) (-1 : Float)).coefficients.get? ⟨0, "x"⟩
      = some (-1) := by decide +kernel
  obtain ⟨v, hv, _⟩ := (himage.objective.1 ⟨0, "x"⟩ (-1)).mp hget
  have hmem := List.mem_singleton.mp (OrderedMap.mem_toList_iff.mpr hv)
  have hvalue : (-1 : Float) = 1 := congrArg Prod.snd hmem
  exact absurd hvalue (by decide)

/-- The name of a guard is written where the name of the constraint is. -/
theorem sameText_of_guardName :
    ∃ (r : Registry) (b x : Variable) (guard c d : Constraint Float) (s s' : VariableSet),
      guard = .right (.ofVariable b) .equal 1
      ∧ (Constraint.right (.ofVariable x) .atMost 3).withIndicator r guard = .ok c
      ∧ (Constraint.right (.ofVariable x) .atMost 3).withIndicator r (guard.named "g") = .ok d
      ∧ Model.variableSet ⟨.zero, [c.named "g"]⟩ = .ok s ∧ Model.variableSet ⟨.zero, [d]⟩ = .ok s'
      ∧ write r ⟨.zero, [c.named "g"]⟩ s = write r ⟨.zero, [d]⟩ s'
      ∧ ¬ ∃ f, Model.IsImage f ⟨.zero, [c.named "g"]⟩ ⟨.zero, [d]⟩ := by
  refine ⟨⟨#[.binary, .free .integer]⟩, ⟨0, "b"⟩, ⟨1, "x"⟩, _, _, _, _, _, rfl, rfl, rfl, rfl,
    rfl, by decide +kernel, ?_⟩
  rintro ⟨f, himage⟩
  cases himage.constraints with
  | cons hhead _ =>
      have hname : some "g" = none := hhead.2.2.2
      cases hname

/-- The model that makes a variable `a` small and bounds `x` by 3 where
`b` is set, where another variable is set, which may be called `a` too. -/
def doublySwitchedBound (i : Nat) : Model :=
  ⟨⟨.minimize, .ofVariable ⟨0, "a"⟩⟩,
    [.guarded (.guarded (.right (.ofVariable ⟨i, "a"⟩) .equal 1)
        ⟨.equal 1, .ofVariable ⟨2, "b"⟩, none⟩)
      ⟨.right .atMost 3, .ofVariable ⟨3, "x"⟩, none⟩]⟩

/-- The guard of a guard is not registered, so its variable can have the
name of another one: three variables and four are written alike. -/
theorem sameText_of_nestedName :
    ∃ (r : Registry) (s s' : VariableSet),
      (doublySwitchedBound 1).variableSet = .ok s ∧ (doublySwitchedBound 0).variableSet = .ok s'
      ∧ write r (doublySwitchedBound 1) s = write r (doublySwitchedBound 0) s'
      ∧ ¬ ∃ f, IsRenaming f (doublySwitchedBound 1).Occurs (doublySwitchedBound 0).Occurs := by
  refine ⟨⟨#[.binary, .binary, .binary, .free .integer]⟩, _, _, rfl, rfl, by decide +kernel, ?_⟩
  rintro ⟨f, hf⟩
  have hself : ∀ w : Variable, w ∈ (Term.ofVariable (K := Float) w).occurring := fun w =>
    List.mem_singleton_self w
  -- Both variables of the name must go to the only one that has it.
  have hunique : ∀ v, (doublySwitchedBound 1).Occurs v → v.name = "a" → f v = ⟨0, "a"⟩ := by
    intro v hv hname
    have hname' : (f v).name = "a" := (hf.name v hv).trans hname
    rcases (hf.onto (f v)).mpr ⟨v, hv, rfl⟩ with hw | ⟨c, hc, hw⟩
    · exact mem_ofVariable hw
    · rw [List.mem_singleton.mp hc] at hw
      rcases hw with hw | hw | hw
      · rw [mem_ofVariable hw] at hname'
        exact absurd hname' (by decide)
      · rw [mem_ofVariable hw] at hname'
        exact absurd hname' (by decide)
      · exact mem_ofVariable hw
  have hshallow : (doublySwitchedBound 1).Occurs ⟨0, "a"⟩ := .inl (hself _)
  have hdeep : (doublySwitchedBound 1).Occurs ⟨1, "a"⟩ :=
    .inr ⟨_, List.mem_singleton_self _, .inr (.inr (hself _))⟩
  have heq := hf.injective _ _ hshallow hdeep
    ((hunique _ hshallow rfl).trans (hunique _ hdeep rfl).symm)
  exact absurd heq (by decide)

end LpText

end LinearProgram
