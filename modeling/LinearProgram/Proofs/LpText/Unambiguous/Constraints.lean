import LinearProgram.Proofs.LpText.Unambiguous.Terms

/-!
# `LinearProgram.Proofs.LpText.Unambiguous.Constraints`: the words of a constraint have one meaning

Constraints that are written in the same words are equal up to their
handles (`Constraint.isAlike_of_words`), whatever the depth of their
guards, if the guards have no names of their own.

Where a part of a constraint ends is found by a kind of word that cannot
stand inside it (`append_cons_inj`): a term ends at a relation, a guard
at the last arrow. Relations, arrows and the names in front have a mark
that the words of a term never have (`isMark`).
-/

set_option autoImplicit false

namespace LinearProgram

open Decimal (plain)
open LpText (isName)
open Text (append_cons_inj append_cons_inj_last)

/-! ### Marks -/

/-- The characters that relations, arrows and names in front have. -/
def isMark (c : Char) : Bool := [':', '<', '=', '>'].contains c

/-- Whether a word has no mark. -/
def IsUnmarked (w : List Char) : Prop := ∀ c ∈ w, isMark c = false

instance (w : List Char) : Decidable (IsUnmarked w) :=
  List.decidableBAll _ w

theorem isMark_of_isOperator {c : Char} (h : LpText.isOperator c = false) : isMark c = false := by
  rw [← Bool.not_eq_true] at h ⊢
  intro hmark
  refine h ?_
  simp only [isMark, List.contains_iff_mem, List.mem_cons, List.not_mem_nil, or_false] at hmark
  rcases hmark with rfl | rfl | rfl | rfl
  · decide
  · decide
  · decide
  · decide

theorem isUnmarked_of_isName {w : List Char} (h : isName w = true) : IsUnmarked w :=
  fun c hc => isMark_of_isOperator (LpText.isNameChar_plain (LpText.isNameChar_of_isName h c hc)).2.1

theorem isUnmarked_cons {c : Char} {w : List Char} (hc : isMark c = false) (hw : IsUnmarked w) :
    IsUnmarked (c :: w) := by
  intro d hd
  rcases List.mem_cons.mp hd with rfl | hd
  · exact hc
  · exact hw d hd

theorem isUnmarked_unsignedText (c : Nat) : IsUnmarked (Decimal.unsignedText c) := by
  by_cases hinf : c = Binary64.infinityCode
  · rw [Decimal.unsignedText, if_pos hinf]
    decide
  · intro d hd
    have hnumeral := (Decimal.numeral_unsignedText hinf).2 d hd
    exact isMark_of_isOperator (LpText.isNumeral_plain hnumeral).2.2.1

theorem isUnmarked_plain {x : Float} (h : x.isNaN = false) : IsUnmarked (plain x).toList := by
  rw [Decimal.plain_toList h]
  split
  · exact isUnmarked_cons (by decide) (isUnmarked_unsignedText _)
  · exact isUnmarked_unsignedText _

theorem not_isUnmarked_relation (r : Relation) : ¬ IsUnmarked r.text.toList := by
  cases r
  · decide
  · decide
  · decide

theorem Relation.text_injective {r s : Relation} (h : r.text.toList = s.text.toList) : r = s := by
  cases r <;> cases s <;> first | rfl | exact absurd h (by decide)

namespace Term

/-- No word of a term has a mark. -/
theorem isUnmarked_words {t : Term Float} (hnamed : t.IsNamed) (hfinite : t.IsFinite) :
    ∀ w ∈ t.words, IsUnmarked w :=
  forall_entryWords (Q := fun x => x.isFinite = true) (fun _ => Binary64.isFinite_neg)
    (fun _ hx => isUnmarked_plain (Binary64.isNaN_of_isFinite hx))
    (fun _ => isUnmarked_cons (by decide)) (by decide) (by decide) hfinite.2 fun p hp =>
    have hsummand := isSummand_of_mem hnamed hfinite p hp
    ⟨hsummand.2.1, isUnmarked_of_isName hsummand.1⟩

theorem words_ne_nil (t : Term Float) : t.words ≠ [] := by
  unfold words
  cases Variable.sortByName t.coefficients.toList with
  | nil => exact List.cons_ne_nil _ _
  | cons p rest =>
      show firstWords p.1 p.2 ++ laterWords rest t.constant ≠ []
      refine List.append_ne_nil_of_left_ne_nil ?_ _
      unfold firstWords
      obtain ⟨w, ws, hcons⟩ := factorWords_eq_cons (-p.2) p.1.name
      split
      · rw [hcons]
        exact List.cons_ne_nil _ _
      · exact factorWords_ne_nil _ _

end Term

/-! ### Shapes -/

namespace Shape

/-- Whether the bounds are numbers, with the term first or between them,
and an equation is written as one. -/
def IsLegible : Shape Float → Prop
  | left _ _ => False
  | right relation bound => relation ≠ .equal ∧ bound.isNaN = false
  | equal bound => bound.isNaN = false
  | range lower _ _ upper => lower.isNaN = false ∧ upper.isNaN = false

theorem plain_toList_inj {x y : Float} (hx : x.isNaN = false) (hy : y.isNaN = false)
    (h : (plain x).toList = (plain y).toList) : x = y :=
  Decimal.plain_injective hx hy (String.toList_injective h)

/-- A term and its one bound are known from their words. -/
theorem right_words_inj {T U : List (List Char)} {r s : Relation} {x y : Float}
    (hT : ∀ w ∈ T, IsUnmarked w) (hU : ∀ w ∈ U, IsUnmarked w) (hx : x.isNaN = false)
    (hy : y.isNaN = false)
    (h : T ++ [r.text.toList, (plain x).toList] = U ++ [s.text.toList, (plain y).toList]) :
    T = U ∧ r = s ∧ x = y := by
  obtain ⟨hterm, hrelation, hbound⟩ :=
    append_cons_inj hT hU (not_isUnmarked_relation r) (not_isUnmarked_relation s) h
  exact ⟨hterm, Relation.text_injective hrelation,
    plain_toList_inj hx hy (List.cons.inj hbound).1⟩

/-- Behind the first relation of a range stands more than one word. -/
theorem right_words_ne_range {T U : List (List Char)} {r l u : Relation} {x y z : Float}
    (hT : ∀ w ∈ T, IsUnmarked w) (hy : y.isNaN = false) :
    T ++ [r.text.toList, (plain x).toList]
      ≠ (plain y).toList :: l.text.toList :: U ++ [u.text.toList, (plain z).toList] := by
  intro h
  have hsplit : T ++ r.text.toList :: [(plain x).toList]
      = [(plain y).toList] ++ l.text.toList :: (U ++ [u.text.toList, (plain z).toList]) := h
  have hfirst : ∀ w ∈ [(plain y).toList], IsUnmarked w := fun w hw => by
    rw [List.mem_singleton.mp hw]
    exact isUnmarked_plain hy
  obtain ⟨_, _, hrest⟩ := append_cons_inj hT hfirst (not_isUnmarked_relation r)
    (not_isUnmarked_relation l) hsplit
  have hlength := congrArg List.length hrest
  simp at hlength

/-- A shape and the words of the term are known from the words of both. -/
theorem words_inj {shape shape' : Shape Float} {T U : List (List Char)}
    (hs : shape.IsLegible) (hs' : shape'.IsLegible) (hT : ∀ w ∈ T, IsUnmarked w)
    (hU : ∀ w ∈ U, IsUnmarked w) (h : shape.words T = shape'.words U) :
    shape = shape' ∧ T = U := by
  -- An equation is a relation to one bound like the others.
  cases shape with
  | left _ _ => cases hs
  | right r x =>
      cases shape' with
      | left _ _ => cases hs'
      | right s y =>
          obtain ⟨rfl, rfl, rfl⟩ := right_words_inj hT hU hs.2 hs'.2 h
          exact ⟨rfl, rfl⟩
      | equal y =>
          obtain ⟨_, hr, _⟩ := right_words_inj (s := .equal) hT hU hs.2 hs' h
          exact absurd hr hs.1
      | range lower l u upper => exact absurd h (right_words_ne_range hT hs'.1)
  | equal x =>
      cases shape' with
      | left _ _ => cases hs'
      | right s y =>
          obtain ⟨_, hr, _⟩ := right_words_inj (r := .equal) hT hU hs hs'.2 h
          exact absurd hr.symm hs'.1
      | equal y =>
          obtain ⟨rfl, _, rfl⟩ := right_words_inj (r := .equal) (s := .equal) hT hU hs hs' h
          exact ⟨rfl, rfl⟩
      | range lower l u upper =>
          exact absurd h (right_words_ne_range (r := .equal) hT hs'.1)
  | range lower l u upper =>
      cases shape' with
      | left _ _ => cases hs'
      | right s y => exact absurd h.symm (right_words_ne_range hU hs.1)
      | equal y => exact absurd h.symm (right_words_ne_range (r := .equal) hU hs.1)
      | range lower' l' u' upper' =>
          obtain ⟨hlower, htail⟩ := List.cons.inj h
          obtain ⟨hl, hrest⟩ := List.cons.inj htail
          obtain ⟨rfl, rfl, rfl⟩ := right_words_inj hT hU hs.2 hs'.2 hrest
          cases plain_toList_inj hs.1 hs'.1 hlower
          cases Relation.text_injective hl
          exact ⟨rfl, rfl⟩

/-- The first word of a legible shape has no mark. -/
theorem words_head {shape : Shape Float} {T : List (List Char)} (hs : shape.IsLegible)
    (hne : T ≠ []) (hT : ∀ w ∈ T, IsUnmarked w) :
    ∃ w ws, shape.words T = w :: ws ∧ IsUnmarked w := by
  cases T with
  | nil => exact absurd rfl hne
  | cons w T =>
      have hw := hT w (List.mem_cons_self ..)
      cases shape with
      | left _ _ => cases hs
      | right r x => exact ⟨_, _, rfl, hw⟩
      | equal x => exact ⟨_, _, rfl, hw⟩
      | range lower l u upper => exact ⟨_, _, rfl, isUnmarked_plain hs.1⟩

/-- No word of a legible shape is an arrow. -/
theorem words_ne_arrow {shape : Shape Float} {T : List (List Char)} (hs : shape.IsLegible)
    (hT : ∀ w ∈ T, IsUnmarked w) : ∀ w ∈ shape.words T, w ≠ ['-', '>'] := by
  have hunmarked : ∀ {w : List Char}, IsUnmarked w → w ≠ ['-', '>'] := by
    rintro w hw rfl
    exact absurd hw (by decide)
  have hrelation : ∀ r : Relation, r.text.toList ≠ ['-', '>'] := by
    intro r
    cases r <;> decide
  have hequal : ['='] ≠ ['-', '>'] := by decide
  intro w hw
  cases shape with
  | left _ _ => cases hs
  | right r x =>
      simp only [words, List.mem_append, List.mem_cons, List.not_mem_nil, or_false] at hw
      rcases hw with hw | rfl | rfl
      · exact hunmarked (hT w hw)
      · exact hrelation r
      · exact hunmarked (isUnmarked_plain hs.2)
  | equal x =>
      simp only [words, List.mem_append, List.mem_cons, List.not_mem_nil, or_false] at hw
      rcases hw with hw | rfl | rfl
      · exact hunmarked (hT w hw)
      · exact hequal
      · exact hunmarked (isUnmarked_plain hs)
  | range lower l u upper =>
      simp only [words, List.mem_append, List.mem_cons, List.not_mem_nil, or_false] at hw
      rcases hw with (rfl | rfl | hw) | rfl | rfl
      · exact hunmarked (isUnmarked_plain hs.1)
      · exact hrelation l
      · exact hunmarked (hT w hw)
      · exact hrelation u
      · exact hunmarked (isUnmarked_plain hs.2)

end Shape

/-! ### Constraints -/

/-- Whether a row can be read off its words. -/
structure Row.IsLegible (row : Row Float) : Prop where
  shape : row.shape.IsLegible
  named : row.term.IsNamed
  finite : row.term.IsFinite
  name : ∀ name, row.name = some name → isName name.toList = true

namespace Constraint

/-- Whether a constraint can be read off its words: all of its rows can,
and guards have no names. -/
def IsLegible : Constraint Float → Prop
  | plain row => row.IsLegible
  | guarded guard row => guard.IsLegible ∧ guard.name = none ∧ row.IsLegible

/-- A name in front has a mark, so it is not confused with what follows. -/
theorem nameWords_inj {n m : Option String} {w v : List Char} {ws vs : List (List Char)}
    (hw : IsUnmarked w) (hv : IsUnmarked v)
    (h : nameWords n ++ w :: ws = nameWords m ++ v :: vs) : n = m ∧ w :: ws = v :: vs := by
  have hmarked : ∀ name : String, ¬ IsUnmarked (name.toList ++ [':']) := by
    intro name hname
    exact absurd (hname ':' (List.mem_append_right _ (List.mem_singleton_self _))) (by decide)
  cases n with
  | none =>
      cases m with
      | none => exact ⟨rfl, h⟩
      | some m =>
          rw [(List.cons.inj h).1] at hw
          exact absurd hw (hmarked m)
  | some n =>
      cases m with
      | none =>
          rw [← (List.cons.inj h).1] at hv
          exact absurd hv (hmarked n)
      | some m =>
          obtain ⟨hname, hrest⟩ := List.cons.inj h
          rw [String.toList_injective (List.append_cancel_right hname)]
          exact ⟨rfl, hrest⟩

end Constraint

namespace Row

/-- The words of a row without its name. -/
def bodyWords (row : Row Float) : List (List Char) := row.shape.words row.term.words

theorem bodyWords_inj {a b : Row Float} (ha : a.IsLegible) (hb : b.IsLegible)
    (hname : a.name = b.name) (h : a.bodyWords = b.bodyWords) : a.IsAlike b := by
  obtain ⟨hshape, hwords⟩ := Shape.words_inj ha.shape hb.shape
    (Term.isUnmarked_words ha.named ha.finite) (Term.isUnmarked_words hb.named hb.finite) h
  exact ⟨hshape, Term.isAlike_of_words ha.named hb.named ha.finite hb.finite hwords, hname⟩

theorem bodyWords_head {row : Row Float} (h : row.IsLegible) :
    ∃ w ws, row.bodyWords = w :: ws ∧ IsUnmarked w :=
  Shape.words_head h.shape (Term.words_ne_nil _) (Term.isUnmarked_words h.named h.finite)

theorem bodyWords_ne_arrow {row : Row Float} (h : row.IsLegible) :
    ∀ w ∈ row.bodyWords, w ≠ ['-', '>'] :=
  Shape.words_ne_arrow h.shape (Term.isUnmarked_words h.named h.finite)

end Row

namespace Constraint

/-- The words of a constraint behind its name. -/
def bodyWords : Constraint Float → List (List Char)
  | plain row => row.bodyWords
  | guarded guard row => guard.words ++ ['-', '>'] :: row.bodyWords

theorem words_eq (c : Constraint Float) : c.words = nameWords c.name ++ c.bodyWords := by
  cases c with
  | plain row => rfl
  | guarded guard row => rfl

theorem IsLegible.bodyWords_head {c : Constraint Float} (h : c.IsLegible) :
    ∃ w ws, c.bodyWords = w :: ws ∧ IsUnmarked w := by
  induction c with
  | plain row => exact Row.bodyWords_head h
  | guarded guard row ih =>
      obtain ⟨hguard, hname, _⟩ := h
      obtain ⟨w, ws, heq, hw⟩ := ih hguard
      refine ⟨w, ws ++ ['-', '>'] :: row.bodyWords, ?_, hw⟩
      rw [bodyWords, words_eq, hname, heq]
      rfl

/-- A name is no arrow: its last character is a colon. -/
theorem nameWords_ne_arrow (name : Option String) : ∀ w ∈ nameWords name, w ≠ ['-', '>'] := by
  intro w hw heq
  cases name with
  | none => cases hw
  | some n =>
      rw [List.mem_singleton.mp hw] at heq
      have hlast := congrArg List.getLast? heq
      simp at hlast

/-- Constraints of the same words are equal up to their handles. -/
theorem isAlike_of_words {c d : Constraint Float} (hc : c.IsLegible) (hd : d.IsLegible)
    (h : c.words = d.words) : c.IsAlike d := by
  induction c generalizing d with
  | plain a =>
      cases d with
      | plain b =>
          obtain ⟨w, ws, ha, hw⟩ := Row.bodyWords_head hc
          obtain ⟨v, vs, hb, hv⟩ := Row.bodyWords_head hd
          rw [words_eq, words_eq, bodyWords, bodyWords, ha, hb] at h
          obtain ⟨hname, hbody⟩ := nameWords_inj hw hv h
          rw [← ha, ← hb] at hbody
          exact Row.bodyWords_inj hc hd hname hbody
      | guarded k b =>
          -- There is an arrow on one side only.
          have hmem : ['-', '>'] ∈ (plain a).words := by
            rw [h, words_eq, bodyWords]
            simp
          rcases List.mem_append.mp hmem with hmem | hmem
          · exact absurd rfl (nameWords_ne_arrow _ _ hmem)
          · exact absurd rfl (Row.bodyWords_ne_arrow hc _ hmem)
  | guarded g a ih =>
      cases d with
      | plain b =>
          have hmem : ['-', '>'] ∈ (plain b).words := by
            rw [← h, words_eq, bodyWords]
            simp
          rcases List.mem_append.mp hmem with hmem | hmem
          · exact absurd rfl (nameWords_ne_arrow _ _ hmem)
          · exact absurd rfl (Row.bodyWords_ne_arrow hd _ hmem)
      | guarded k b =>
          obtain ⟨w, ws, hwords, hw⟩ := hc.bodyWords_head
          obtain ⟨v, vs, hwords', hv⟩ := hd.bodyWords_head
          rw [words_eq, words_eq, hwords, hwords'] at h
          obtain ⟨hname, hbody⟩ := nameWords_inj hw hv h
          rw [← hwords, ← hwords'] at hbody
          -- The row stands behind the last arrow.
          obtain ⟨hguard, _, hrow⟩ := append_cons_inj_last (p := (· ≠ ['-', '>']))
            (Row.bodyWords_ne_arrow hc.2.2) (Row.bodyWords_ne_arrow hd.2.2)
            (fun hne => hne rfl) (fun hne => hne rfl) hbody
          exact ⟨ih hc.1 hd.1 hguard, Row.bodyWords_inj hc.2.2 hd.2.2 hname hrow⟩

end Constraint

end LinearProgram
