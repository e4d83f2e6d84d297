import LinearProgram.Proofs.LpText.Layout.Lines

/-!
# `LinearProgram.Proofs.LpText.Layout.Documents`: line breaks are layout

A text may be laid out anew: lines are cut where they are joined again,
and blank lines and comments are put in. What the text says stays the
same, and the problems with it are the same ones on the lines where they
stand now.

* `IsRelaid` is the relation between the texts.
* `read_inserted` and `read_cut` are its steps, `read_relaid` the whole.
-/

set_option autoImplicit false

namespace LinearProgram.LpText

variable {isWhole : Bool} {f g : Nat → Nat}

/-- Whether a text is another one in a new layout, in which what stood on
line `n` begins on line `f n`. If it is whole, no line has been cut. -/
inductive IsRelaid : Bool → (Nat → Nat) → String → String → Prop
  | refl (text : String) : IsRelaid true id text text
  /-- A line that is blank, or has nothing but a comment, is put in. -/
  | insert {isWhole : Bool} {f : Nat → Nat} {text text' text'' : String}
      {before after : List (List Char)} {line : List Char} (h : IsRelaid isWhole f text text')
      (h' : Text.lines text'.toList = before ++ after)
      (h'' : Text.lines text''.toList = before ++ line :: after) (hline : stripped line = []) :
      IsRelaid isWhole (shifted before.length ∘ f) text text''
  /-- A line is cut in two. -/
  | cut {isWhole : Bool} {f : Nat → Nat} {text text' text'' : String}
      {before after : List (List Char)} {line left right : List Char}
      (h : IsRelaid isWhole f text text') (h' : Text.lines text'.toList = before ++ line :: after)
      (h'' : Text.lines text''.toList = before ++ left :: right :: after)
      (hcut : IsCut (sectionAfter before) line left right) :
      IsRelaid false (shifted (before.length + 1) ∘ f) text text''

/-! ### One change -/

theorem monotone_shifted (count : Nat) : Monotone (shifted count) := by
  intro a b hab
  unfold shifted
  split <;> split <;> omega

theorem read_of_items {text text' : String} {count : Nat}
    (h : List.Forall₂ (Item.IsCopy isWhole (shifted count)) (items text.toList)
      (items text'.toList)) (registry : Registry) :
    Document.IsCopy isWhole (shifted count) (read registry text) (read registry text') :=
  ((Draft.IsCopy.start registry).foldl_take h).settle (monotone_shifted count)
    (shifted_of_le (Nat.zero_le count))

/-! ### Several changes -/

theorem ReadError.IsCopy.trans {a b c : ReadError Float} (h : a.IsCopy isWhole b)
    (h' : b.IsCopy isWhole c) : a.IsCopy isWhole c :=
  ⟨h'.unquoted.trans h.unquoted, fun hwhole => (h'.whole hwhole).trans (h.whole hwhole)⟩

theorem Problem.IsCopy.trans {p q r : Problem} (h : p.IsCopy isWhole f q)
    (h' : q.IsCopy isWhole g r) : p.IsCopy isWhole (g ∘ f) r :=
  ⟨h'.line.trans (congrArg g h.line), h.error.trans h'.error⟩

theorem Problem.IsCopy.weaken {p q : Problem} (h : p.IsCopy isWhole f q) :
    p.IsCopy false f q := ⟨h.line, h.error.unquoted, nofun⟩

theorem forall₂_problems_trans {ps qs rs : List Problem}
    (h : List.Forall₂ (Problem.IsCopy isWhole f) ps qs)
    (h' : List.Forall₂ (Problem.IsCopy isWhole g) qs rs) :
    List.Forall₂ (Problem.IsCopy isWhole (g ∘ f)) ps rs := by
  induction h generalizing rs with
  | nil =>
      cases h'
      exact .nil
  | cons hhead _ ih =>
      cases h' with
      | cons hhead' htail' => exact .cons (hhead.trans hhead') (ih htail')

namespace Document.IsCopy

variable {r r' r'' : Document × Registry}

theorem refl (r : Document × Registry) : IsCopy true id r r :=
  ⟨rfl, rfl, rfl, List.forall₂_same.mpr fun _ _ => ⟨rfl, .refl _⟩⟩

theorem trans (h : IsCopy isWhole f r r') (h' : IsCopy isWhole g r' r'') :
    IsCopy isWhole (g ∘ f) r r'' :=
  ⟨h'.model.trans h.model, h'.variableSet.trans h.variableSet, h'.registry.trans h.registry,
    forall₂_problems_trans h.problems h'.problems⟩

theorem weaken (h : IsCopy isWhole f r r') : IsCopy false f r r' :=
  ⟨h.model, h.variableSet, h.registry, h.problems.imp fun _ _ hp => hp.weaken⟩

end Document.IsCopy

/-- A text in a new layout says the same: it has the same objective, the
same constraints in the same order, and the same variables with the same
attributes. There are the same problems in the same order, each on the
line where its statement is now. They are the same to the letter unless
lines have been cut; then a statement that they quote may be spelled with
other spaces. -/
theorem read_relaid {text text' : String} (h : IsRelaid isWhole f text text')
    (registry : Registry) :
    (read registry text').1.model = (read registry text).1.model
      ∧ (read registry text').1.variableSet = (read registry text).1.variableSet
      ∧ (read registry text').2 = (read registry text).2
      ∧ List.Forall₂ (fun p q => q.line = f p.line ∧ q.error.unquoted = p.error.unquoted
          ∧ (isWhole = true → q.error = p.error))
        (read registry text).1.problems (read registry text').1.problems := by
  have hcopy : Document.IsCopy isWhole f (read registry text) (read registry text') := by
    induction h with
    | refl text => exact .refl _
    | insert _ h' h'' hline ih =>
        exact ih.trans (read_of_items (items_inserted h' h'' hline) registry)
    | cut _ h' h'' hcut ih =>
        exact ih.weaken.trans (read_of_items (items_cut h' h'' hcut) registry)
  exact ⟨hcopy.model, hcopy.variableSet, hcopy.registry,
    hcopy.problems.imp fun _ _ hp => ⟨hp.line, hp.error.unquoted, hp.error.whole⟩⟩

/-- A constraint on one line, and a line behind the end. -/
def compactText : String := "MIN x\nST\n x + y >= 2\nEND\nmore\n"

/-- The constraint is on two lines. -/
def cutText : String := "MIN x\nST\n x +\n y >= 2\nEND\nmore\n"

/-- There is a comment between the two lines. -/
def spaciousText : String := "MIN x\nST\n x +\n\\ both\n y >= 2\nEND\nmore\n"

theorem isRelaid_spaciousText :
    IsRelaid false (shifted 3 ∘ shifted 3) compactText spaciousText := by
  have hleft : Spells ["x".toList, ['+']] [.name "x", .plus] :=
    (spells_plainName ⟨by decide, by decide⟩).cons spells_plusSign
  have hnumber : Spells ["2".toList] [.number 2] := by
    have htext : (Decimal.plain 2).toList = "2".toList := by decide +kernel
    rw [← htext]
    exact spells_positive (by decide +kernel)
  have hright : Spells ["y".toList, ['>', '='], "2".toList]
      [.name "y", .relation .atLeast, .number 2] :=
    (spells_plainName ⟨by decide, by decide⟩).cons ((spells_relation .atLeast).cons hnumber)
  have hcut : IsCut (sectionAfter ["MIN x".toList, "ST".toList])
      " x + y >= 2".toList " x +".toList " y >= 2".toList :=
    ⟨by decide, by decide, by decide, by decide, by decide,
      ⟨_, _, tokenize_joined hleft, tokenize_joined hright,
        tokenize_joined (hleft.append hright)⟩, .inr ⟨.inl (by decide), .inl (by decide)⟩⟩
  have hcompact : Text.lines compactText.toList = ["MIN x".toList, "ST".toList]
      ++ " x + y >= 2".toList :: ["END".toList, "more".toList] := by decide
  have hparts : Text.lines cutText.toList = ["MIN x".toList, "ST".toList]
      ++ " x +".toList :: " y >= 2".toList :: ["END".toList, "more".toList] := by decide
  have hbefore : Text.lines cutText.toList = ["MIN x".toList, "ST".toList, " x +".toList]
      ++ [" y >= 2".toList, "END".toList, "more".toList] := hparts
  have hspacious : Text.lines spaciousText.toList
      = ["MIN x".toList, "ST".toList, " x +".toList]
        ++ "\\ both".toList :: [" y >= 2".toList, "END".toList, "more".toList] := by decide
  exact .insert (.cut (.refl compactText) hcompact hparts hcut) hbefore hspacious (by decide)

theorem spaciousText_read :
    IsRelaid false (shifted 3 ∘ shifted 3) compactText spaciousText
      ∧ (read ∅ compactText).1.model.constraints.length = 1
      ∧ (read ∅ spaciousText).1.model = (read ∅ compactText).1.model
      ∧ (read ∅ compactText).1.problems.map (·.line) = [5]
      ∧ (read ∅ spaciousText).1.problems.map (·.line) = [7] := by
  obtain ⟨hmodel, _, _, hproblems⟩ := read_relaid isRelaid_spaciousText ∅
  have hcompact : (read ∅ compactText).1.problems.map (·.line) = [5] := by decide +kernel
  have hlines : (read ∅ spaciousText).1.problems.map (·.line)
      = ((read ∅ compactText).1.problems.map (·.line)).map (shifted 3 ∘ shifted 3) := by
    rw [List.map_map]
    rw [← List.forall₂_eq_eq_eq, List.forall₂_map_left_iff, List.forall₂_map_right_iff]
    exact hproblems.flip.imp fun _ _ hp => hp.1
  refine ⟨isRelaid_spaciousText, by decide +kernel, hmodel, hcompact, ?_⟩
  rw [hlines, hcompact]
  rfl

end LinearProgram.LpText
