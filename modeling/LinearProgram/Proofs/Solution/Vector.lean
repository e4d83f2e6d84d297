import LinearProgram.Proofs.LpText.Names
import LinearProgram.Proofs.Model.Occurrence
import LinearProgram.SolutionFile

/-!
# `LinearProgram.Proofs.Solution.Vector`: solution vectors read back

What is kept of a solution is its compact vector, and this is what a
reader finds in it.

* `vector_toList`: a compact vector is a stack of lines, one for the
  objective and one for each variable that is not zero.
* `takeLine_objectiveText`, `takeLine_valueText` and
  `takeLine_valueText_of_mem` say what each line means. The last of them
  is about names with a number sign: for the reader a comment begins
  there, and what is left of the line means nothing.
* `foldlM_takeLine` is the induction over the lines.

`ofText_vector` sums up: the objective comes back, and of the values those
that `recorded` gives. For the objective alone it is enough that there
are no blanks in the names (`objective_of_vector`).
-/

set_option autoImplicit false

namespace LinearProgram

open Text (IsWord IsLine spaced stacked)

namespace Decimal

/-- Every number reads back, also what is not a number. -/
theorem read_plain_eq (x : Float) : read (plain x).toList = .ok x := by
  cases hnan : x.isNaN with
  | false => exact read_plain hnan
  | true =>
      have hcode := Binary64.isNaN_iff.mp hnan
      have htext : plain x = "NaN" := by
        rw [plain, signed]
        exact if_pos hcode
      have hread : read "NaN".toList = .ok (0.0 / 0.0) := by rfl
      have hnone : Binary64.infinityCode < Binary64.code (0.0 / 0.0) := by decide +kernel
      rw [htext, hread, Binary64.eq_of_infinityCode_lt hcode hnone]

/-- The characters of a written number. -/
theorem mem_plain {x : Float} {c : Char} (h : c ∈ (plain x).toList) :
    c.isDigit = true ∨ c ∈ "-.infNa".toList := by
  cases hnan : x.isNaN with
  | true =>
      have htext : plain x = "NaN" := by
        rw [plain, signed]
        exact if_pos (Binary64.isNaN_iff.mp hnan)
      have hletters : "NaN".toList ⊆ "-.infNa".toList := by decide
      rw [htext] at h
      exact .inr (hletters h)
  | false =>
      have hunsigned : ∀ n, c ∈ unsignedText n → c.isDigit = true ∨ c ∈ "-.infNa".toList := by
        intro n hc
        by_cases hinf : n = Binary64.infinityCode
        · rw [unsignedText, if_pos hinf] at hc
          have hletters : "inf".toList ⊆ "-.infNa".toList := by decide
          exact .inr (hletters hc)
        · rcases (numeral_unsignedText hinf).2 c hc with hdigit | rfl
          · exact .inl hdigit
          · exact .inr (by decide)
      rw [plain_toList hnan] at h
      split at h
      · rcases List.mem_cons.mp h with rfl | h
        · exact .inr (by decide)
        · exact hunsigned _ h
      · exact hunsigned _ h

end Decimal

namespace Text

/-! ### Cutting a line -/

theorem splitAt_of_not_mem {c : Char} {cs : List Char} (h : c ∉ cs) : splitAt c cs = (cs, none) := by
  have hdrop : cs.dropWhile (· ≠ c) = [] := Decimal.dropWhile_all fun d hd => by
    refine decide_eq_true fun heq => h ?_
    rwa [← heq]
  rw [splitAt, hdrop]

theorem splitAt_append_cons {c : Char} {as : List Char} (h : c ∉ as) (bs : List Char) :
    splitAt c (as ++ c :: bs) = (as, some bs) := by
  have hall : ∀ d ∈ as, decide (d ≠ c) = true := fun d hd => by
    refine decide_eq_true fun heq => h ?_
    rwa [← heq]
  have hdrop : (as ++ c :: bs).dropWhile (· ≠ c) = c :: bs := by
    rw [List.dropWhile_append_of_pos hall, List.dropWhile_cons, if_neg (by simp)]
  have htake : (as ++ c :: bs).takeWhile (· ≠ c) = as := by
    rw [List.takeWhile_append_of_pos hall, List.takeWhile_cons, if_neg (by simp), List.append_nil]
  rw [splitAt, hdrop, htake]

theorem stripHead?_eq_some_iff {head cs rest : List Char} :
    stripHead? head cs = some rest ↔ cs = head ++ rest := by
  induction head generalizing cs with
  | nil => exact ⟨Option.some.inj, congrArg some⟩
  | cons h head ih =>
      cases cs with
      | nil => exact ⟨nofun, nofun⟩
      | cons c cs =>
          rw [stripHead?, List.cons_append]
          by_cases heq : h = c
          · rw [if_pos heq, ih, heq, List.cons.injEq]
            exact ⟨fun hrest => ⟨rfl, hrest⟩, And.right⟩
          · rw [if_neg heq]
            refine ⟨nofun, fun hcons => absurd ?_ heq⟩
            exact (List.cons.inj hcons).1.symm

/-- The blank in front of a text of words is dropped. -/
theorem trim_spaced_cons {w : List Char} {ws : List (List Char)} (hw : IsWord w)
    (hws : ∀ v ∈ ws, IsWord v) : trim (spaced (w :: ws)) = w ++ spaced ws := by
  have hleft : trimLeft (spaced (w :: ws)) = w ++ spaced ws := by
    show trimLeft (' ' :: (w ++ spaced ws)) = _
    rw [trimLeft_of_isBlank isBlank_space, trimLeft_of_isWord hw]
  rw [trim, hleft, trimRight_spaced hws hw]

/-- A text that begins and ends with words stays. -/
theorem trim_append_spaced {w : List Char} {ws : List (List Char)} (hw : IsWord w)
    (hws : ∀ v ∈ ws, IsWord v) : trim (w ++ spaced ws) = w ++ spaced ws := by
  rw [trim, trimLeft_of_isWord hw, trimRight_spaced hws hw]

end Text

namespace Solution

open Decimal (plain)

/-! ### The lines of a vector -/

/-- The line of the objective. -/
def objectiveText (objective : Float) : List Char :=
  '#' :: spaced ["objective".toList, "value".toList, (plain objective).toList]

/-- The line of a value. -/
def valueText (p : Variable × Float) : List Char := p.1.name.toList ++ spaced [(plain p.2).toList]

theorem objectiveLine_toList (x : Float) :
    (objectiveLine x).toList = objectiveText x ++ ['\n'] := by
  unfold objectiveLine objectiveText
  rw [String.toList_append, String.toList_append]
  simp only [Text.spaced_cons, Text.spaced_nil, List.append_nil]
  rfl

theorem isLine_objectiveText (x : Float) : IsLine (objectiveText x) := by
  have hwords : ∀ w ∈ ["objective".toList, "value".toList, (plain x).toList], IsWord w := by
    intro w hw
    rcases List.mem_cons.mp hw with rfl | hw
    · decide
    · rcases List.mem_cons.mp hw with rfl | hw
      · decide
      · rw [List.mem_singleton.mp hw]
        exact LpText.isWord_plain x
  intro c hc
  rcases List.mem_cons.mp hc with rfl | hc
  · decide
  · exact Text.isLine_spaced hwords c hc

theorem isLine_valueText {p : Variable × Float}
    (h : ∀ c ∈ p.1.name.toList, Text.isBlank c = false) : IsLine (valueText p) := by
  have hwords : ∀ w ∈ [(plain p.2).toList], IsWord w := by
    intro w hw
    rw [List.mem_singleton.mp hw]
    exact LpText.isWord_plain p.2
  intro c hc
  rcases List.mem_append.mp hc with hc | hc
  · exact Text.isLine_of_blankless h c hc
  · exact Text.isLine_spaced hwords c hc

theorem valueLine_of_zero {v : Variable} {x : Float} (h : (x == 0) = true) :
    valueLine true v x = "" := by
  rw [valueLine, if_pos rfl, if_pos h]

theorem valueLine_toList {v : Variable} {x : Float} (h : ¬ (x == 0) = true) :
    (valueLine true v x).toList = valueText (v, x) ++ ['\n'] := by
  rw [valueLine, if_pos rfl, if_neg h]
  simp only [String.toList_append, valueText, Text.spaced_cons, Text.spaced_nil, List.append_nil,
    List.append_assoc]
  rfl

/-- A compact vector has a line for each value other than zero. -/
theorem vector_toList (s : Solution) :
    (s.vector true).toList
      = stacked (objectiveText s.objective
        :: (s.byName.filter fun p => !(p.2 == 0)).map valueText) := by
  have hvalues : ∀ entries : List (Variable × Float),
      (String.join (entries.map fun p => valueLine true p.1 p.2)).toList
        = stacked ((entries.filter fun p => !(p.2 == 0)).map valueText) := by
    intro entries
    induction entries with
    | nil => rfl
    | cons p rest ih =>
        rw [List.map_cons, String.join_cons, String.toList_append, ih]
        -- A zero adds nothing to the text, and anything else adds its line.
        by_cases hzero : (p.2 == 0) = true
        · rw [valueLine_of_zero hzero, List.filter_cons_of_neg (by rw [hzero]; decide)]
          rfl
        · rw [valueLine_toList hzero, List.filter_cons_of_pos (by simpa using hzero)]
          rfl
  unfold vector
  rw [String.toList_append]
  exact congrArg₂ (· ++ ·) (objectiveLine_toList s.objective) (hvalues s.byName)

end Solution

namespace SolutionFile

open Decimal (plain)
open LpText (isWord_plain)
open Solution (objectiveText valueText isLine_objectiveText isLine_valueText)

/-! ### What the lines mean -/

theorem forall_isWord_plain (x : Float) : ∀ w ∈ [(plain x).toList], IsWord w := by
  intro w hw
  rw [List.mem_singleton.mp hw]
  exact isWord_plain x

theorem number_of_trim {text : List Char} {x : Float} (h : Text.trim text = (plain x).toList) :
    number text = .ok x := by
  rw [number, h, Decimal.read_plain_eq]

/-- A number sign is in no number. -/
theorem mark_not_mem_plain (x : Float) : '#' ∉ (plain x).toList := by
  intro h
  rcases Decimal.mem_plain h with hdigit | hletter
  · exact absurd hdigit (by decide)
  · exact absurd hletter (by decide)

/-- The line of the objective says what the objective is. -/
theorem takeLine_objectiveText (f : SolutionFile) (x : Float) :
    f.takeLine (objectiveText x) = .ok { f with objective := x } := by
  -- The number sign comes first, so that all of the line is comment.
  have hsplit : Text.splitAt '#' (objectiveText x)
      = ([], some (spaced ["objective".toList, "value".toList, (plain x).toList])) :=
    @Text.splitAt_append_cons '#' [] List.not_mem_nil _
  have hwords : ∀ w ∈ ["value".toList, (plain x).toList], IsWord w := by
    intro w hw
    rcases List.mem_cons.mp hw with rfl | hw
    · decide
    · exact forall_isWord_plain x w hw
  have htrim : Text.trim (spaced ["objective".toList, "value".toList, (plain x).toList])
      = objectiveMark ++ spaced [(plain x).toList] :=
    Text.trim_spaced_cons (by decide) hwords
  have hnumber : number (spaced [(plain x).toList]) = .ok x :=
    number_of_trim (by rw [Text.trim_spaced_cons (isWord_plain x) (List.forall_mem_nil _), Text.spaced_nil,
      List.append_nil])
  simp only [takeLine, hsplit, takeComment, Option.bind_some, htrim,
    Text.stripHead?_eq_some_iff.mpr rfl, hnumber, Except.map]
  rfl

/-- The line of a value says what the value is, if the name goes on to its
end. -/
theorem takeLine_valueText {p : Variable × Float} (f : SolutionFile)
    (hname : IsWord p.1.name.toList) (hmark : '#' ∉ p.1.name.toList) :
    f.takeLine (valueText p) = .ok { f with values := f.values.insert p.1.name p.2 } := by
  have hplain : '#' ∉ valueText p := by
    intro h
    rcases List.mem_append.mp h with h | h
    · exact hmark h
    · rw [Text.spaced_cons, Text.spaced_nil, List.append_nil] at h
      rcases List.mem_cons.mp h with heq | h
      · exact absurd heq (by decide)
      · exact mark_not_mem_plain _ h
  have hwords : Text.words (valueText p) = [p.1.name.toList, (plain p.2).toList] := by
    rw [valueText, Text.words_append hname (Text.startsWord_spaced _),
      Text.words_spaced (forall_isWord_plain p.2)]
  have hnumber : number (plain p.2).toList = .ok p.2 := by
    have htrim := @Text.trim_append_spaced _ [] (isWord_plain p.2) (List.forall_mem_nil _)
    rw [Text.spaced_nil, List.append_nil] at htrim
    exact number_of_trim htrim
  simp only [takeLine, Text.splitAt_of_not_mem hplain, takeComment, Option.bind_none,
    takeContent, hwords, hnumber, Except.map, String.ofList_toList]

/-- No comment that begins in a name is one about the objective. -/
theorem not_objectiveMark {b : List Char} (hb : ∀ c ∈ b, Text.isBlank c = false) (x : Float) :
    Text.stripHead? objectiveMark (Text.trim (b ++ spaced [(plain x).toList])) = none := by
  refine Option.eq_none_iff_forall_ne_some.mpr fun rest hrest => ?_
  have heq := Text.stripHead?_eq_some_iff.mp hrest
  have hmark : objectiveMark = "objective".toList ++ ' ' :: "value".toList := by decide
  rw [hmark, List.append_assoc, List.cons_append] at heq
  -- A number would have to begin with this letter.
  have hletter : ∀ {n : List Char}, (plain x).toList ≠ 'v' :: n := by
    intro n h
    rcases Decimal.mem_plain (x := x) (c := 'v') (by rw [h]; exact List.mem_cons_self ..) with
      hdigit | hletter
    · exact absurd hdigit (by decide)
    · exact absurd hletter (by decide)
  by_cases hnil : b = []
  · rw [hnil, List.nil_append, Text.trim_spaced_cons (isWord_plain x) (List.forall_mem_nil _), Text.spaced_nil,
      List.append_nil] at heq
    have hspace : ' ' ∈ (plain x).toList := by simp [heq]
    exact absurd ((isWord_plain x).2 ' ' hspace) (by decide)
  · rw [Text.trim_append_spaced ⟨hnil, hb⟩ (forall_isWord_plain x), Text.spaced_cons,
      Text.spaced_nil, List.append_nil] at heq
    have hword : IsWord "objective".toList := by decide
    obtain ⟨_, _, hvalue⟩ := Text.append_cons_inj (p := fun c => Text.isBlank c = false) hb
      hword.2 (by decide) (by decide) heq
    exact hletter hvalue

/-- A name with a number sign in it takes the value with it into the
comment, and the line means nothing. -/
theorem takeLine_valueText_of_mem {p : Variable × Float} (f : SolutionFile)
    (hname : IsWord p.1.name.toList) (hmark : '#' ∈ p.1.name.toList) :
    f.takeLine (valueText p) = .ok f := by
  obtain ⟨a, b, hab, ha⟩ := List.eq_append_cons_of_mem hmark
  have hblank := hname.2
  rw [hab] at hblank
  have hsplit : Text.splitAt '#' (valueText p) = (a, some (b ++ spaced [(plain p.2).toList])) := by
    rw [valueText, hab, List.append_assoc, List.cons_append]
    exact Text.splitAt_append_cons ha _
  have hcomment := not_objectiveMark
    (fun c hc => hblank c (List.mem_append_right _ (List.mem_cons_of_mem _ hc))) p.2
  -- What stands before the comment is one word or none.
  have hwords : Text.words a = if a = [] then [] else [a] := by
    split
    · rename_i hnil
      rw [hnil]
      rfl
    · rename_i hne
      have hend : Text.startsWord [] = false := rfl
      have hone := Text.words_append ⟨hne, fun c hc => hblank c (List.mem_append_left _ hc)⟩ hend
      rwa [List.append_nil] at hone
  simp only [takeLine, hsplit, takeComment, Option.bind_some, hcomment, takeContent, hwords]
  split
  · rename_i heq
    split at heq <;> cases heq
  · rfl

/-! ### Whole vectors -/

/-- Whether a reader finds a name as it was written. -/
def IsUnmarked (v : Variable) : Bool := !v.name.toList.contains '#'

/-- What a reader who knows something takes from lines of values. -/
theorem foldlM_takeLine {entries : List (Variable × Float)}
    (hnames : ∀ p ∈ entries, IsWord p.1.name.toList) (f : SolutionFile) :
    (entries.map valueText).foldlM takeLine f
      = .ok { f with
        values := (entries.filter fun p => IsUnmarked p.1).foldl
          (fun m p => m.insert p.1.name p.2) f.values } := by
  induction entries generalizing f with
  | nil => rfl
  | cons p rest ih =>
      have hname := hnames p (List.mem_cons_self ..)
      have hrest := fun q hq => hnames q (List.mem_cons_of_mem _ hq)
      rw [List.map_cons, List.foldlM_cons]
      -- What is known so far stays or gets one more value, and goes into the rest.
      by_cases hmark : '#' ∈ p.1.name.toList
      · rw [takeLine_valueText_of_mem f hname hmark,
          List.filter_cons_of_neg (by simpa [IsUnmarked] using hmark)]
        exact ih hrest f
      · rw [takeLine_valueText f hname hmark,
          List.filter_cons_of_pos (by simpa [IsUnmarked] using hmark)]
        exact ih hrest _

/-- The entries of a solution that a reader finds. -/
def legible (s : Solution) : List (Variable × Float) :=
  s.byName.filter fun p => IsUnmarked p.1 && !(p.2 == 0)

theorem mem_byName {s : Solution} {v : Variable} {x : Float} :
    (v, x) ∈ s.byName ↔ s.value? v = some x := by
  rw [Solution.byName, (Variable.sortByName_perm _).mem_iff]
  exact OrderedMap.mem_toList_iff

/-- Whether there are no blanks in names. A name may be empty. -/
def HasNoBlanks (s : Solution) : Prop :=
  ∀ v x, s.value? v = some x → ∀ c ∈ v.name.toList, Text.isBlank c = false

-- Names are searched as lists: all characters are finitely many as well.
instance (s : Solution) : Decidable (HasNoBlanks s) :=
  decidable_of_iff (s.values.toList.all fun p => p.1.name.toList.all fun c => !Text.isBlank c) (by
    simp only [List.all_eq_true, Bool.not_eq_true']
    exact ⟨fun h v x hx => h (v, x) (OrderedMap.mem_toList_iff.mpr hx),
      fun h p hp => h p.1 p.2 (OrderedMap.mem_toList_iff.mp hp)⟩)

/-- The lines of values are read one after another, with the objective
known. -/
theorem ofText_vector_eq {s : Solution} (h : HasNoBlanks s) :
    ofText (s.vector true)
      = ((s.byName.filter fun p => !(p.2 == 0)).map valueText).foldlM takeLine
          ⟨s.objective, ∅⟩ := by
  have hlines : ∀ l ∈ objectiveText s.objective
      :: (s.byName.filter fun p => !(p.2 == 0)).map valueText, IsLine l := by
    intro l hl
    rcases List.mem_cons.mp hl with rfl | hl
    · exact isLine_objectiveText s.objective
    · obtain ⟨p, hp, rfl⟩ := List.mem_map.mp hl
      exact isLine_valueText (h p.1 p.2 (mem_byName.mp (List.mem_filter.mp hp).1))
  rw [ofText, Solution.vector_toList, Text.lines_stacked hlines, List.foldlM_cons,
    takeLine_objectiveText]
  rfl

/-- The compact vector of a solution reads back, apart from what is not
legible. -/
theorem ofText_vector {s : Solution} (hnames : ∀ v x, s.value? v = some x → IsWord v.name.toList) :
    ofText (s.vector true)
      = .ok ⟨s.objective, .ofList ((legible s).map fun p => (p.1.name, p.2))⟩ := by
  have hentries : ∀ p ∈ s.byName.filter (fun p => !(p.2 == 0)), IsWord p.1.name.toList :=
    fun p hp => hnames p.1 p.2 (mem_byName.mp (List.mem_filter.mp hp).1)
  rw [ofText_vector_eq fun v x hx => (hnames v x hx).2]
  refine (foldlM_takeLine hentries _).trans ?_
  rw [List.filter_filter, legible, OrderedMap.ofList, List.foldl_map]

/-! ### The objective -/

/-- What is found of a value: nothing but zero if it is zero, or if its
variable has a number sign in its name. -/
def recorded (v : Variable) (x : Float) : Float := if IsUnmarked v && !(x == 0) then x else 0

theorem recorded_eq (v : Variable) (x : Float) :
    recorded v x = if '#' ∈ v.name.toList ∨ (x == 0) = true then 0 else x := by
  unfold recorded IsUnmarked
  by_cases hmark : '#' ∈ v.name.toList
  · simp [hmark]
  · by_cases hzero : (x == 0) = true
    · simp [hzero]
    · simp [hmark, hzero]

/-- A value is found again, up to the sign of a zero, unless there is a
number sign in the name of its variable and it is not zero. -/
theorem recorded_beq_iff {v : Variable} {x : Float} (hx : x.isNaN = false) :
    (recorded v x == x) = true ↔ ('#' ∈ v.name.toList → (x == 0) = true) := by
  have hle := Binary64.code_le_of_isNaN hx
  have hzero : (0 == x) = true ↔ (x == 0) = true := by
    rw [Binary64.beq_iff, Binary64.beq_iff]
    exact ⟨fun ⟨h, h', heq⟩ => ⟨h', h, heq.imp Eq.symm And.symm⟩,
      fun ⟨h, h', heq⟩ => ⟨h', h, heq.imp Eq.symm And.symm⟩⟩
  rw [recorded_eq]
  split
  · rename_i h
    rw [hzero]
    exact ⟨fun h _ => h, fun himp => h.elim himp id⟩
  · rename_i h
    exact ⟨fun _ hmark => absurd (.inl hmark) h, fun _ => Binary64.beq_self hle⟩

/-- A variable is found if it is listed, with the value that the file has
for its name, or with zero. -/
theorem value?_solution {f : SolutionFile} {vars : VariableSet} {v : Variable} (hv : v ∈ vars) :
    (f.solution vars).value? v = some ((f.values.get? v.name).getD 0) := by
  refine OrderedMap.get?_ofList
    (List.mem_map.mpr ⟨v, VariableSet.mem_toList_iff.mpr hv, rfl⟩) fun y hy => ?_
  obtain ⟨w, _, heq⟩ := List.mem_map.mp hy
  cases heq
  rfl

/-- Whether a solution can be told from its vector: the names are words,
and no two variables share one. -/
structure IsWritable (s : Solution) : Prop where
  word : ∀ v x, s.value? v = some x → IsWord v.name.toList
  distinct : ∀ v w x y, s.value? v = some x → s.value? w = some y → v.name = w.name → v = w

/-- Values of the variables of a model can be told if the names are words. -/
theorem isWritable_of_mem {s : Solution} {vars : VariableSet}
    (hmem : ∀ v x, s.value? v = some x → v ∈ vars)
    (hword : ∀ v ∈ vars, IsWord v.name.toList) : IsWritable s :=
  ⟨fun v x hx => hword v (hmem v x hx),
    fun v w x y hx hy => VariableSet.eq_of_name_eq (hmem v x hx) (hmem w y hy)⟩

/-- A name that no value has is in no line. -/
theorem get?_legible_eq_none {s : Solution} {name : String}
    (h : ∀ u x, s.value? u = some x → u.name ≠ name) :
    (OrderedMap.ofList ((legible s).map fun p => (p.1.name, p.2))).get? name = none := by
  refine OrderedMap.get?_ofList_eq_none fun q hq => ?_
  obtain ⟨⟨w, y⟩, hp, rfl⟩ := List.mem_map.mp hq
  exact h w y (mem_byName.mp (List.mem_filter.mp hp).1)

/-- The line for the name of a variable is its own, if there is one. -/
theorem getD_legible {s : Solution} (h : IsWritable s) {u : Variable} {x : Float}
    (hx : s.value? u = some x) :
    ((OrderedMap.ofList ((legible s).map fun p => (p.1.name, p.2))).get? u.name).getD 0
      = recorded u x := by
  -- A line with this name is about this variable, since names are distinct.
  have hown : ∀ p ∈ legible s, p.1.name = u.name → p = (u, x) := by
    rintro ⟨w, y⟩ hp hname
    have hw := mem_byName.mp (List.mem_filter.mp hp).1
    obtain rfl := h.distinct w u y x hw hx hname
    rw [Option.some.inj (hw.symm.trans hx)]
  rw [recorded]
  split
  · rename_i hlegible
    have hmem : (u.name, x) ∈ (legible s).map fun p => (p.1.name, p.2) :=
      List.mem_map.mpr ⟨(u, x), List.mem_filter.mpr ⟨mem_byName.mpr hx, hlegible⟩, rfl⟩
    have hunique : ∀ y, (u.name, y) ∈ (legible s).map (fun p => (p.1.name, p.2)) → y = x := by
      intro y hy
      obtain ⟨p, hp, heq⟩ := List.mem_map.mp hy
      obtain ⟨hname, rfl⟩ := Prod.mk.inj heq
      rw [hown p hp hname]
    rw [OrderedMap.get?_ofList hmem hunique]
    rfl
  · rename_i hlegible
    rw [OrderedMap.get?_ofList_eq_none]
    · rfl
    · intro q hq hname
      obtain ⟨p, hp, rfl⟩ := List.mem_map.mp hq
      rw [hown p hp hname] at hp
      exact hlegible (List.mem_filter.mp hp).2

/-- What a file that was written says of the variables of a model. -/
theorem solution_of_vector {s : Solution} (h : IsWritable s) :
    ∃ f, ofText (s.vector true) = .ok f ∧ ∀ vars : VariableSet,
      (f.solution vars).objective = s.objective
      ∧ (∀ v ∈ vars, ∀ u x, s.value? u = some x → u.name = v.name →
        (f.solution vars).value? v = some (recorded u x))
      ∧ ∀ v ∈ vars, (∀ u x, s.value? u = some x → u.name ≠ v.name) →
        (f.solution vars).value? v = some 0 := by
  refine ⟨_, ofText_vector h.word, fun vars => ⟨rfl, ?_, ?_⟩⟩
  · intro v hv u x hx hname
    rw [value?_solution hv, ← hname]
    exact congrArg some (getD_legible h hx)
  · intro v hv hnone
    rw [value?_solution hv, get?_legible_eq_none hnone]
    rfl

end SolutionFile

end LinearProgram
