import LinearProgram.LpText.Writer
import LinearProgram.Proofs.LpText.Names

/-!
# `LinearProgram.Proofs.LpText.Words`: the words that a model is written in

What is written of a term, a constraint and a variable's bounds is a
sequence of words.

* `Term.words`, `Constraint.words` and `boundsWords?` are the words;
  `Term.spaced_words`, `Constraint.spaced_words` and `boundsText?_words`
  tie them to the text.
* `Term.forall_entryWords`: what holds of names and numbers holds of the
  words of a term.
* `Constraint.IsNamed.isPlainWord_words`, `isPlainWord_boundsWords?`: where
  all names are names, the words are words and begin no comment, so that
  the text can be taken apart.
-/

set_option autoImplicit false

namespace LinearProgram

open Decimal (plain)
open Text (spaced IsWord)

/-! ### Terms -/

namespace Term

/-- A variable with its coefficient, which is not written if it is one. -/
def factorWords (c : Float) (name : String) : List (List Char) :=
  if c == 1 then [name.toList] else [(plain c).toList, name.toList]

/-- A minus sign in front of the first word, without a space between. -/
def withMinus : List (List Char) → List (List Char)
  | [] => []
  | w :: ws => ('-' :: w) :: ws

/-- The first summand. -/
def firstWords (v : Variable) (c : Float) : List (List Char) :=
  if c < 0 then withMinus (factorWords (-c) v.name) else factorWords c v.name

/-- A further summand, whose sign is a word. -/
def nextWords (v : Variable) (c : Float) : List (List Char) :=
  if c < 0 then ['-'] :: factorWords (-c) v.name else ['+'] :: factorWords c v.name

/-- The constant behind the summands, none if it is zero. -/
def constantWords (c : Float) : List (List Char) :=
  if c < 0 then [['-'], (plain (-c)).toList]
  else if 0 < c then [['+'], (plain c).toList]
  else []

/-- The summands behind the first one, and the constant. -/
def laterWords (entries : List (Variable × Float)) (constant : Float) : List (List Char) :=
  entries.flatMap (fun p => nextWords p.1 p.2) ++ constantWords constant

theorem laterWords_cons (p : Variable × Float) (rest : List (Variable × Float))
    (constant : Float) :
    laterWords (p :: rest) constant = nextWords p.1 p.2 ++ laterWords rest constant := by
  rw [laterWords, List.flatMap_cons, List.append_assoc]
  rfl

/-- The words of summands and a constant. -/
def entryWords : List (Variable × Float) → Float → List (List Char)
  | [], constant => [(plain constant).toList]
  | (v, c) :: rest, constant => firstWords v c ++ laterWords rest constant

/-- The words of a term. -/
def words (t : Term Float) : List (List Char) :=
  entryWords (Variable.sortByName t.coefficients.toList) t.constant

theorem spaced_factorWords (c : Float) (name : String) :
    spaced (factorWords c name) = ' ' :: (factorText c ++ name).toList := by
  unfold factorWords factorText
  split <;> simp

theorem factorWords_eq_cons (c : Float) (name : String) :
    ∃ w ws, factorWords c name = w :: ws := by
  unfold factorWords
  split
  · exact ⟨_, _, rfl⟩
  · exact ⟨_, _, rfl⟩

theorem spaced_firstWords (v : Variable) (c : Float) :
    spaced (firstWords v c) = ' ' :: (firstText v c).toList := by
  unfold firstWords firstText
  by_cases h : c < 0
  · rw [if_pos h, if_pos h]
    have hspaced := spaced_factorWords (-c) v.name
    obtain ⟨w, ws, hw⟩ := factorWords_eq_cons (-c) v.name
    rw [hw, Text.spaced_cons] at hspaced
    rw [hw, withMinus, Text.spaced_cons]
    have htail : w ++ spaced ws = (factorText (-c) ++ v.name).toList :=
      List.cons.inj hspaced |>.2
    show ' ' :: '-' :: (w ++ spaced ws) = _
    rw [htail]
    simp
  · rw [if_neg h, if_neg h]
    exact spaced_factorWords c v.name

theorem spaced_nextWords (v : Variable) (c : Float) :
    spaced (nextWords v c) = (nextText v c).toList := by
  unfold nextWords nextText
  split
  · rw [Text.spaced_cons, spaced_factorWords]
    simp
  · rw [Text.spaced_cons, spaced_factorWords]
    simp

theorem spaced_constantWords (c : Float) :
    spaced (constantWords c) = (constantText c).toList := by
  unfold constantWords constantText
  split
  · simp
  · split <;> simp

theorem spaced_laterWords (entries : List (Variable × Float)) (constant : Float) :
    spaced (laterWords entries constant)
      = (String.join (entries.map fun p => nextText p.1 p.2) ++ constantText constant).toList := by
  rw [laterWords, Text.spaced_append, spaced_constantWords, String.toList_append]
  congr 1
  induction entries with
  | nil => simp
  | cons p rest ih =>
      rw [List.flatMap_cons, Text.spaced_append, spaced_nextWords, ih, List.map_cons]
      simp

/-- A term is written as its words. -/
theorem spaced_words (t : Term Float) : spaced t.words = ' ' :: t.text.toList := by
  unfold words text
  cases Variable.sortByName t.coefficients.toList with
  | nil => simp [entryWords]
  | cons p rest =>
      show spaced (firstWords p.1 p.2 ++ laterWords rest t.constant) = _
      rw [Text.spaced_append, spaced_firstWords, spaced_laterWords]
      simp [String.append_assoc]

end Term

/-! ### Constraints -/

/-- The words of a relation around a term. -/
def Shape.words (term : List (List Char)) : Shape Float → List (List Char)
  | .left bound relation => (plain bound).toList :: relation.text.toList :: term
  | .right relation bound => term ++ [relation.text.toList, (plain bound).toList]
  | .equal bound => term ++ [['='], (plain bound).toList]
  | .range lower l r upper =>
    (plain lower).toList :: l.text.toList :: term ++ [r.text.toList, (plain upper).toList]

theorem Shape.spaced_words (shape : Shape Float) (t : Term Float) :
    spaced (shape.words t.words) = ' ' :: (shape.text t.text).toList := by
  cases shape with
  | left bound relation => simp [words, text, Term.spaced_words]
  | right relation bound => simp [words, text, Term.spaced_words]
  | equal bound => simp [words, text, Term.spaced_words]
  | range lower l r upper => simp [words, text, Term.spaced_words]

namespace Constraint

/-- The name in front of a constraint, with its colon. -/
def nameWords : Option String → List (List Char)
  | some name => [name.toList ++ [':']]
  | none => []

/-- The words of a constraint: its name, its guard, its bounds. -/
def words : Constraint Float → List (List Char)
  | plain row => nameWords row.name ++ row.shape.words row.term.words
  | guarded guard row =>
    nameWords row.name ++ (guard.words ++ ['-', '>'] :: row.shape.words row.term.words)

theorem spaced_nameWords (name : Option String) (rest : String) :
    spaced (nameWords name) ++ ' ' :: rest.toList
      = ' ' :: (text.nameText name ++ rest).toList := by
  cases name with
  | none => simp [nameWords, text.nameText]
  | some name => simp [nameWords, text.nameText]

/-- A constraint is written as its words. -/
theorem spaced_words (c : Constraint Float) : spaced c.words = ' ' :: c.text.toList := by
  induction c with
  | plain row =>
      rw [words, Text.spaced_append, Shape.spaced_words, spaced_nameWords]
      rfl
  | guarded guard row ih =>
      have hguard : spaced (guard.words ++ ['-', '>'] :: row.shape.words row.term.words)
          = ' ' :: (guard.text ++ (" -> " ++ row.shape.text row.term.text)).toList := by
        rw [Text.spaced_append, Text.spaced_cons, Shape.spaced_words, ih]
        simp
      rw [words, Text.spaced_append, hguard, spaced_nameWords, text, String.append_assoc,
        String.append_assoc]

end Constraint

namespace LpText

/-! ### Bounds -/

/-- The words of a variable's bounds, if they are written. -/
def boundsWords? (name : String) (lower upper : Float) : Option (List (List Char)) :=
  if lower == 0 && upper == Binary64.infinity then none
  else if lower == -Binary64.infinity && upper == Binary64.infinity then
    some [name.toList, "FREE".toList]
  else if lower == 0 then some [name.toList, ['<', '='], (plain upper).toList]
  else if upper == Binary64.infinity then some [(plain lower).toList, ['<', '='], name.toList]
  else some [(plain lower).toList, ['<', '='], name.toList, ['<', '='], (plain upper).toList]

/-- Bounds are written as their words. -/
theorem boundsText?_words (name : String) (lower upper : Float) :
    (boundsText? name lower upper).map (fun text => ' ' :: text.toList)
      = (boundsWords? name lower upper).map spaced := by
  unfold boundsText? boundsWords?
  split
  · rfl
  split
  · simp
  split
  · simp
  split
  · simp
  · simp

end LpText

/-! ### Where names are names -/

/-- Whether all variables have proper names. -/
def Term.IsNamed (t : Term Float) : Prop :=
  ∀ v ∈ t.occurring, LpText.isName v.name.toList = true

/-- Whether all variables of a constraint and of its guards have proper
names, and the constraints themselves have proper names or none. -/
def Constraint.IsNamed : Constraint Float → Prop
  | plain row => row.term.IsNamed ∧ ∀ name, row.name = some name → LpText.isName name.toList = true
  | guarded guard row =>
    guard.IsNamed ∧ row.term.IsNamed
      ∧ ∀ name, row.name = some name → LpText.isName name.toList = true

open LpText (isName IsPlainWord isPlainWord_of_isName isPlainWord_plain)

namespace Term

section

/-! What holds of names and of the numbers at hand, and is not lost by a
minus sign in front, holds of all words of a term. -/

variable {P : List Char → Prop} {Q : Float → Prop} (hneg : ∀ x, Q x → Q (-x))
  (hplain : ∀ x, Q x → P (plain x).toList) (hglue : ∀ w, P w → P ('-' :: w))
  (hminus : P ['-']) (hplus : P ['+'])

include hplain in
theorem forall_factorWords {c : Float} {name : String} (hc : Q c) (hn : P name.toList) :
    ∀ w ∈ factorWords c name, P w := by
  intro w hw
  unfold factorWords at hw
  split at hw
  · rw [List.mem_singleton.mp hw]
    exact hn
  · rcases List.mem_cons.mp hw with rfl | hw
    · exact hplain c hc
    · rw [List.mem_singleton.mp hw]
      exact hn

include hneg hplain hglue in
theorem forall_firstWords {v : Variable} {c : Float} (hc : Q c) (hn : P v.name.toList) :
    ∀ w ∈ firstWords v c, P w := by
  intro w hw
  unfold firstWords at hw
  split at hw
  · have hfactor := forall_factorWords hplain (hneg c hc) hn
    obtain ⟨u, us, hcons⟩ := factorWords_eq_cons (-c) v.name
    rw [hcons] at hw hfactor
    rcases List.mem_cons.mp hw with rfl | hw
    · exact hglue u (hfactor u (List.mem_cons_self ..))
    · exact hfactor w (List.mem_cons_of_mem _ hw)
  · exact forall_factorWords hplain hc hn w hw

include hneg hplain hminus hplus in
theorem forall_nextWords {v : Variable} {c : Float} (hc : Q c) (hn : P v.name.toList) :
    ∀ w ∈ nextWords v c, P w := by
  intro w hw
  unfold nextWords at hw
  split at hw
  · rcases List.mem_cons.mp hw with rfl | hw
    · exact hminus
    · exact forall_factorWords hplain (hneg c hc) hn w hw
  · rcases List.mem_cons.mp hw with rfl | hw
    · exact hplus
    · exact forall_factorWords hplain hc hn w hw

include hneg hplain hminus hplus in
theorem forall_constantWords {c : Float} (hc : Q c) : ∀ w ∈ constantWords c, P w := by
  intro w hw
  unfold constantWords at hw
  split at hw
  · rcases List.mem_cons.mp hw with rfl | hw
    · exact hminus
    · rw [List.mem_singleton.mp hw]
      exact hplain _ (hneg c hc)
  split at hw
  · rcases List.mem_cons.mp hw with rfl | hw
    · exact hplus
    · rw [List.mem_singleton.mp hw]
      exact hplain c hc
  · cases hw

include hneg hplain hglue hminus hplus in
theorem forall_entryWords {entries : List (Variable × Float)} {constant : Float}
    (hconstant : Q constant) (h : ∀ p ∈ entries, Q p.2 ∧ P p.1.name.toList) :
    ∀ w ∈ entryWords entries constant, P w := by
  intro w hw
  cases entries with
  | nil =>
      rw [List.mem_singleton.mp hw]
      exact hplain constant hconstant
  | cons p rest =>
      rcases List.mem_append.mp hw with hw | hw
      · obtain ⟨hc, hn⟩ := h p (List.mem_cons_self ..)
        exact forall_firstWords hneg hplain hglue hc hn w hw
      rcases List.mem_append.mp hw with hw | hw
      · obtain ⟨q, hq, hw⟩ := List.mem_flatMap.mp hw
        obtain ⟨hc, hn⟩ := h q (List.mem_cons_of_mem _ hq)
        exact forall_nextWords hneg hplain hminus hplus hc hn w hw
      · exact forall_constantWords hneg hplain hminus hplus hconstant w hw

end

theorem isPlainWord_minus {w : List Char} (h : IsPlainWord w) : IsPlainWord ('-' :: w) :=
  LpText.isPlainWord_cons (by decide) (by decide) h

/-- The variables of the sorted summands are those that occur. -/
theorem mem_occurring_iff {t : Term Float} {v : Variable} :
    v ∈ t.occurring ↔ ∃ c, (v, c) ∈ Variable.sortByName t.coefficients.toList := by
  rw [occurring, OrderedMap.keys, List.mem_map]
  constructor
  · rintro ⟨p, hp, rfl⟩
    exact ⟨p.2, (Variable.sortByName_perm _).mem_iff.mpr hp⟩
  · rintro ⟨c, hc⟩
    exact ⟨(v, c), (Variable.sortByName_perm _).mem_iff.mp hc, rfl⟩

theorem IsNamed.isPlainWord_words {t : Term Float} (h : t.IsNamed) : ∀ w ∈ t.words, IsPlainWord w :=
  forall_entryWords (Q := fun _ => True) (fun _ _ => trivial) (fun x _ => isPlainWord_plain x)
    (fun _ => isPlainWord_minus) (by decide) (by decide) trivial fun p hp =>
    ⟨trivial, isPlainWord_of_isName (h p.1 (mem_occurring_iff.mpr ⟨p.2, hp⟩))⟩

end Term

theorem Relation.isPlainWord_text (r : Relation) : IsPlainWord r.text.toList := by
  cases r
  · decide
  · decide
  · decide

theorem Shape.isPlainWord_words {term : List (List Char)} (h : ∀ w ∈ term, IsPlainWord w)
    (shape : Shape Float) : ∀ w ∈ shape.words term, IsPlainWord w := by
  have hrelation := Relation.isPlainWord_text
  have hplain := isPlainWord_plain
  have hequal : IsPlainWord ['='] := by decide
  intro w hw
  cases shape with
  | left bound relation =>
      simp only [words, List.mem_cons] at hw
      rcases hw with rfl | rfl | hw
      · exact hplain bound
      · exact hrelation relation
      · exact h w hw
  | right relation bound =>
      simp only [words, List.mem_append, List.mem_cons, List.not_mem_nil, or_false] at hw
      rcases hw with hw | rfl | rfl
      · exact h w hw
      · exact hrelation relation
      · exact hplain bound
  | equal bound =>
      simp only [words, List.mem_append, List.mem_cons, List.not_mem_nil, or_false] at hw
      rcases hw with hw | rfl | rfl
      · exact h w hw
      · exact hequal
      · exact hplain bound
  | range lower l r upper =>
      simp only [words, List.mem_append, List.mem_cons, List.not_mem_nil, or_false] at hw
      rcases hw with (rfl | rfl | hw) | rfl | rfl
      · exact hplain lower
      · exact hrelation l
      · exact h w hw
      · exact hrelation r
      · exact hplain upper

theorem Constraint.isPlainWord_nameWords {name : Option String}
    (h : ∀ n, name = some n → isName n.toList = true) : ∀ w ∈ nameWords name, IsPlainWord w := by
  intro w hw
  cases name with
  | none => cases hw
  | some n =>
      rw [List.mem_singleton.mp hw]
      have hn := isPlainWord_of_isName (h n rfl)
      refine ⟨⟨List.append_ne_nil_of_left_ne_nil hn.1.1 _, fun c hc => ?_⟩, fun c hc => ?_⟩
      · rcases List.mem_append.mp hc with hc | hc
        · exact hn.1.2 c hc
        · rw [List.mem_singleton.mp hc]
          decide
      · rcases List.mem_append.mp hc with hc | hc
        · exact hn.2 c hc
        · rw [List.mem_singleton.mp hc]
          decide

/-- The normal form has the variables and the names of the constraint. -/
theorem Constraint.IsNamed.normalize {c : Constraint Float} (h : c.IsNamed) :
    c.normalize.IsNamed := by
  cases c with
  | plain row => exact h
  | guarded guard row => exact h

theorem Constraint.IsNamed.isPlainWord_words {c : Constraint Float} (h : c.IsNamed) :
    ∀ w ∈ c.words, IsPlainWord w := by
  induction c with
  | plain row =>
      intro w hw
      rcases List.mem_append.mp hw with hw | hw
      · exact isPlainWord_nameWords h.2 w hw
      · exact Shape.isPlainWord_words h.1.isPlainWord_words row.shape w hw
  | guarded guard row ih =>
      intro w hw
      rcases List.mem_append.mp hw with hw | hw
      · exact isPlainWord_nameWords h.2.2 w hw
      rcases List.mem_append.mp hw with hw | hw
      · exact ih h.1 w hw
      rcases List.mem_cons.mp hw with rfl | hw
      · decide
      · exact Shape.isPlainWord_words h.2.1.isPlainWord_words row.shape w hw

theorem LpText.isPlainWord_boundsWords? {name : String} (h : isName name.toList = true)
    {lower upper : Float} {ws : List (List Char)} (heq : boundsWords? name lower upper = some ws) :
    ∀ w ∈ ws, IsPlainWord w := by
  have hname := isPlainWord_of_isName h
  have hplain := isPlainWord_plain
  have hfree : IsPlainWord ['F', 'R', 'E', 'E'] := by decide
  have hatMost : IsPlainWord ['<', '='] := by decide
  unfold boundsWords? at heq
  split at heq
  · cases heq
  split at heq
  · cases heq
    simp [hname, hfree]
  split at heq
  · cases heq
    simp [hname, hatMost, hplain]
  split at heq
  · cases heq
    simp [hname, hatMost, hplain]
  · cases heq
    simp [hname, hatMost, hplain]

end LinearProgram
