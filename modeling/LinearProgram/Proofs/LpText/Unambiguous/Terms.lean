import LinearProgram.Proofs.LpText.Words
import LinearProgram.Proofs.Model.Construction

/-!
# `LinearProgram.Proofs.LpText.Unambiguous.Terms`: the words of a term have one meaning

Terms that are written in the same words are equal up to their handles
(`Term.isAlike_of_words`), if their names are names and their numbers
finite. That a name is a keyword of the reader, or spells infinity, does
not matter: a number in a term begins with a digit, behind a minus sign
or not, and a name never does.

Sequences of words are compared from the left, one summand after
another: `factorWords_inj`, `firstWords_inj` and `nextWords_inj` say
that a summand is known from the words it begins with, whatever follows.
-/

set_option autoImplicit false

namespace LinearProgram

open Decimal (plain)
open LpText (isName IsSignedNumeral)

theorem plain_injective_of_finite {x y : Float} (hx : x.isFinite = true) (hy : y.isFinite = true)
    (h : (plain x).toList = (plain y).toList) : x = y :=
  Decimal.plain_injective (Binary64.isNaN_of_isFinite hx) (Binary64.isNaN_of_isFinite hy)
    (String.toList_injective h)

/-- A number is not written like a name behind a minus sign. -/
theorem not_isSignedNumeral_minus {w : List Char} (h : isName w = true) :
    ¬ IsSignedNumeral ('-' :: w) := by
  rintro ⟨c, rest, heq, hdigit⟩
  obtain ⟨d, others, rfl, hstart, _⟩ := LpText.isName_cons h
  rcases heq with heq | heq
  · cases heq
    cases hdigit
  · cases heq
    rw [(LpText.isNameStart_plain hstart).2.1] at hdigit
    cases hdigit

/-! ### Terms -/

namespace Term

/-- Whether a summand has a proper name and a finite coefficient other
than zero. -/
def IsSummand (p : Variable × Float) : Prop :=
  isName p.1.name.toList = true ∧ p.2.isFinite = true ∧ (p.2 == 0) = false

theorem label_eq {p q : Variable × Float} (hvalue : p.2 = q.2) (hname : p.1.name = q.1.name) :
    label p = label q := by
  rw [label, label, hvalue, hname]

/-- A coefficient and a name are known from their words. -/
theorem factorWords_inj {c d : Float} {n m : String} {r s : List (List Char)}
    (hc : c.isFinite = true) (hd : d.isFinite = true) (hn : isName n.toList = true)
    (hm : isName m.toList = true) (h : factorWords c n ++ r = factorWords d m ++ s) :
    c = d ∧ n = m ∧ r = s := by
  have hnumber : ∀ {x : Float} {name : String}, x.isFinite = true → isName name.toList = true →
      name.toList ≠ (plain x).toList := by
    intro x name hx hname heq
    have hnot := (LpText.isSignedNumeral_plain hx).not_isName
    rw [← heq, hname] at hnot
    cases hnot
  unfold factorWords at h
  split at h
  · rename_i hc1
    split at h
    · rename_i hd1
      obtain ⟨hname, hrest⟩ := List.cons.inj h
      rw [Binary64.beq_one_iff] at hc1 hd1
      exact ⟨hc1.trans hd1.symm, String.toList_injective hname, hrest⟩
    · exact absurd (List.cons.inj h).1 (hnumber hd hn)
  · split at h
    · exact absurd (List.cons.inj h).1.symm (hnumber hc hm)
    · obtain ⟨hvalue, htail⟩ := List.cons.inj h
      obtain ⟨hname, hrest⟩ := List.cons.inj htail
      exact ⟨plain_injective_of_finite hc hd hvalue, String.toList_injective hname, hrest⟩

/-- A further summand is known from its words. -/
theorem nextWords_inj {p q : Variable × Float} {r s : List (List Char)} (hp : IsSummand p)
    (hq : IsSummand q) (h : nextWords p.1 p.2 ++ r = nextWords q.1 q.2 ++ s) :
    label p = label q ∧ r = s := by
  obtain ⟨hpn, hpf, _⟩ := hp
  obtain ⟨hqn, hqf, _⟩ := hq
  unfold nextWords at h
  split at h
  · split at h
    · obtain ⟨hvalue, hname, hrest⟩ := factorWords_inj (Binary64.isFinite_neg hpf)
        (Binary64.isFinite_neg hqf) hpn hqn (List.cons.inj h).2
      exact ⟨label_eq (Binary64.neg_injective hvalue) hname, hrest⟩
    · exact absurd (List.cons.inj h).1 (by decide)
  · split at h
    · exact absurd (List.cons.inj h).1 (by decide)
    · obtain ⟨hvalue, hname, hrest⟩ := factorWords_inj hpf hqf hpn hqn (List.cons.inj h).2
      exact ⟨label_eq hvalue hname, hrest⟩

/-- The first word of a coefficient that is not negative, or of a name,
has no minus sign. -/
theorem factorWords_head_ne {c : Float} {name : String} (hc : c.isFinite = true)
    (hneg : Binary64.isNegative c = false) (hn : isName name.toList = true)
    (w : List Char) (ws : List (List Char)) : factorWords c name ≠ ('-' :: w) :: ws := by
  intro h
  unfold factorWords at h
  split at h
  · obtain ⟨d, others, hcons, hstart, _⟩ := LpText.isName_cons hn
    rw [(List.cons.inj h).1] at hcons
    cases hcons
    exact absurd hstart (by decide)
  · have hcode := Binary64.isFinite_iff.mp hc
    obtain ⟨⟨d, others, htext, hdigit⟩, _⟩ := Decimal.numeral_unsignedText (Nat.ne_of_lt hcode)
    have hplain := Decimal.plain_toList (Binary64.isNaN_of_isFinite hc)
    rw [hneg, if_neg Bool.false_ne_true, htext, (List.cons.inj h).1] at hplain
    cases hplain
    cases hdigit

/-- A coefficient that is not below zero, and not zero, has no sign. -/
theorem isNegative_of_not_lt {c : Float} (hf : c.isFinite = true) (h0 : (c == 0) = false)
    (h : ¬ c < 0) : Binary64.isNegative c = false := by
  have hcode : Binary64.code c ≠ 0 := by
    intro hzero
    rw [← Binary64.beq_zero_iff, h0] at hzero
    cases hzero
  rw [← Bool.not_eq_true]
  intro hneg
  exact h (Binary64.lt_zero_iff.mpr
    ⟨hneg, hcode, Nat.le_of_lt (Binary64.isFinite_iff.mp hf)⟩)

/-- The first word of a summand without its minus sign. -/
theorem withMinus_append_inj {ws vs r s : List (List Char)} (hws : ws ≠ []) (hvs : vs ≠ [])
    (h : withMinus ws ++ r = withMinus vs ++ s) : ws ++ r = vs ++ s := by
  cases ws with
  | nil => exact absurd rfl hws
  | cons w ws =>
      cases vs with
      | nil => exact absurd rfl hvs
      | cons v vs =>
          obtain ⟨hhead, htail⟩ := List.cons.inj h
          have hrest : ws ++ r = vs ++ s := htail
          show w :: (ws ++ r) = v :: (vs ++ s)
          rw [(List.cons.inj hhead).2, hrest]

theorem factorWords_ne_nil (c : Float) (name : String) : factorWords c name ≠ [] := by
  obtain ⟨w, ws, h⟩ := factorWords_eq_cons c name
  rw [h]
  exact List.cons_ne_nil _ _

/-- A minus sign in front of the first word is not part of the word. -/
theorem withMinus_ne_factorWords {c d : Float} {n m : String} {r s : List (List Char)}
    (hd : d.isFinite = true) (hneg : Binary64.isNegative d = false)
    (hm : isName m.toList = true) : withMinus (factorWords c n) ++ r ≠ factorWords d m ++ s := by
  intro h
  obtain ⟨w, ws, hw⟩ := factorWords_eq_cons c n
  obtain ⟨v, vs, hv⟩ := factorWords_eq_cons d m
  rw [hw, hv] at h
  have hhead : '-' :: w = v := (List.cons.inj h).1
  rw [← hhead] at hv
  exact factorWords_head_ne hd hneg hm w vs hv

/-- The first summand is known from its words. -/
theorem firstWords_inj {p q : Variable × Float} {r s : List (List Char)} (hp : IsSummand p)
    (hq : IsSummand q) (h : firstWords p.1 p.2 ++ r = firstWords q.1 q.2 ++ s) :
    label p = label q ∧ r = s := by
  obtain ⟨hpn, hpf, hp0⟩ := hp
  obtain ⟨hqn, hqf, hq0⟩ := hq
  unfold firstWords at h
  split at h
  · split at h
    · obtain ⟨hvalue, hname, hrest⟩ := factorWords_inj (Binary64.isFinite_neg hpf)
        (Binary64.isFinite_neg hqf) hpn hqn
        (withMinus_append_inj (factorWords_ne_nil _ _) (factorWords_ne_nil _ _) h)
      exact ⟨label_eq (Binary64.neg_injective hvalue) hname, hrest⟩
    · rename_i hlt
      exact absurd h (withMinus_ne_factorWords hqf (isNegative_of_not_lt hqf hq0 hlt) hqn)
  · rename_i hlt
    split at h
    · exact absurd h.symm (withMinus_ne_factorWords hpf (isNegative_of_not_lt hpf hp0 hlt) hpn)
    · obtain ⟨hvalue, hname, hrest⟩ := factorWords_inj hpf hqf hpn hqn h
      exact ⟨label_eq hvalue hname, hrest⟩

/-- The constant behind the summands is known from its words, zero up to
its sign. -/
theorem constantWords_inj {c d : Float} (hc : c.isFinite = true) (hd : d.isFinite = true)
    (h : constantWords c = constantWords d) : (c == d) = true := by
  have hself : c = d → (c == d) = true := by
    intro heq
    rw [heq]
    exact Binary64.beq_self (Nat.le_of_lt (Binary64.isFinite_iff.mp hd))
  -- A constant that is not written is a zero.
  have hzero : ∀ {x : Float}, x.isFinite = true → ¬ x < 0 → ¬ 0 < x → Binary64.code x = 0 := by
    intro x hx hlt hgt
    have hle := Nat.le_of_lt (Binary64.isFinite_iff.mp hx)
    rcases Nat.eq_zero_or_pos (Binary64.code x) with h0 | hpos
    · exact h0
    · cases hneg : Binary64.isNegative x with
      | true => exact absurd (Binary64.lt_zero_iff.mpr ⟨hneg, by omega, hle⟩) hlt
      | false => exact absurd (Binary64.zero_lt_iff.mpr ⟨hneg, by omega, hle⟩) hgt
  unfold constantWords at h
  split at h
  · split at h
    · have hvalue := (List.cons.inj (List.cons.inj h).2).1
      exact hself (Binary64.neg_injective (plain_injective_of_finite
        (Binary64.isFinite_neg hc) (Binary64.isFinite_neg hd) hvalue))
    split at h
    · exact absurd (List.cons.inj h).1 (by decide)
    · cases h
  rename_i hcneg
  split at h
  · split at h
    · exact absurd (List.cons.inj h).1 (by decide)
    split at h
    · have hvalue := (List.cons.inj (List.cons.inj h).2).1
      exact hself (plain_injective_of_finite hc hd hvalue)
    · cases h
  · rename_i hcpos
    split at h
    · cases h
    rename_i hdneg
    split at h
    · cases h
    · rename_i hdpos
      have hc0 := hzero hc hcneg hcpos
      have hd0 := hzero hd hdneg hdpos
      exact Binary64.beq_iff.mpr ⟨by rw [hc0]; exact Nat.zero_le _,
        by rw [hd0]; exact Nat.zero_le _, .inr ⟨hc0, hd0⟩⟩

/-- A constant behind the summands is no summand: there is no name in it. -/
theorem constantWords_ne_nextWords {k : Float} {p : Variable × Float} {r : List (List Char)}
    (hk : k.isFinite = true) (hp : IsSummand p) :
    constantWords k ≠ nextWords p.1 p.2 ++ r := by
  have hnumber : ∀ {x : Float} {sign sign' : List Char} {c : Float}, x.isFinite = true →
      [sign, (plain x).toList] ≠ sign' :: (factorWords c p.1.name ++ r) := by
    intro x sign sign' c hx h
    have htail := (List.cons.inj h).2
    unfold factorWords at htail
    split at htail
    · have hnot := (LpText.isSignedNumeral_plain hx).not_isName
      rw [(List.cons.inj htail).1, hp.1] at hnot
      cases hnot
    · have hlength := congrArg List.length htail
      simp at hlength
  intro h
  unfold constantWords nextWords at h
  split at h
  · split at h
    · exact hnumber (Binary64.isFinite_neg hk) h
    · exact hnumber (Binary64.isFinite_neg hk) h
  split at h
  · split at h
    · exact hnumber hk h
    · exact hnumber hk h
  · split at h
    · cases h
    · cases h

/-- Further summands and a constant are known from their words. -/
theorem laterWords_inj {ps qs : List (Variable × Float)} {k l : Float} (hk : k.isFinite = true)
    (hl : l.isFinite = true) (hps : ∀ p ∈ ps, IsSummand p) (hqs : ∀ q ∈ qs, IsSummand q)
    (h : laterWords ps k = laterWords qs l) : ps.map label = qs.map label ∧ (k == l) = true := by
  induction ps generalizing qs with
  | nil =>
      cases qs with
      | nil => exact ⟨rfl, constantWords_inj hk hl h⟩
      | cons q qs =>
          have hq := hqs q (List.mem_cons_self ..)
          rw [laterWords_cons] at h
          exact absurd h (constantWords_ne_nextWords hk hq)
  | cons p ps ih =>
      have hp := hps p (List.mem_cons_self ..)
      cases qs with
      | nil =>
          rw [laterWords_cons] at h
          exact absurd h.symm (constantWords_ne_nextWords hl hp)
      | cons q qs =>
          rw [laterWords_cons, laterWords_cons] at h
          obtain ⟨hhead, htail⟩ := nextWords_inj hp (hqs q (List.mem_cons_self ..)) h
          obtain ⟨hlabels, hconstant⟩ := ih (fun p' hp' => hps p' (List.mem_cons_of_mem _ hp'))
            (fun q' hq' => hqs q' (List.mem_cons_of_mem _ hq')) htail
          exact ⟨by rw [List.map_cons, List.map_cons, hhead, hlabels], hconstant⟩

/-- A number alone is no summand. -/
theorem plain_ne_firstWords {k : Float} {p : Variable × Float} {r : List (List Char)}
    (hk : k.isFinite = true) (hp : IsSummand p) :
    [(plain k).toList] ≠ firstWords p.1 p.2 ++ r := by
  intro h
  have hnumeral := LpText.isSignedNumeral_plain hk
  unfold firstWords factorWords at h
  split at h
  · split at h
    · rw [(List.cons.inj h).1] at hnumeral
      exact not_isSignedNumeral_minus hp.1 hnumeral
    · have hlength := congrArg List.length h
      simp [withMinus] at hlength
  · split at h
    · have hnot := hnumeral.not_isName
      rw [(List.cons.inj h).1, hp.1] at hnot
      cases hnot
    · have hlength := congrArg List.length h
      simp at hlength

theorem entryWords_inj {ps qs : List (Variable × Float)} {k l : Float} (hk : k.isFinite = true)
    (hl : l.isFinite = true) (hps : ∀ p ∈ ps, IsSummand p) (hqs : ∀ q ∈ qs, IsSummand q)
    (h : entryWords ps k = entryWords qs l) : ps.map label = qs.map label ∧ (k == l) = true := by
  cases ps with
  | nil =>
      cases qs with
      | nil =>
          have hvalue := plain_injective_of_finite hk hl (List.cons.inj h).1
          refine ⟨rfl, ?_⟩
          rw [hvalue]
          exact Binary64.beq_self (Nat.le_of_lt (Binary64.isFinite_iff.mp hl))
      | cons q qs => exact absurd h (plain_ne_firstWords hk (hqs q (List.mem_cons_self ..)))
  | cons p ps =>
      have hp := hps p (List.mem_cons_self ..)
      cases qs with
      | nil => exact absurd h.symm (plain_ne_firstWords hl hp)
      | cons q qs =>
          obtain ⟨hhead, htail⟩ := firstWords_inj hp (hqs q (List.mem_cons_self ..)) h
          obtain ⟨hlabels, hconstant⟩ :=
            laterWords_inj hk hl (fun p' hp' => hps p' (List.mem_cons_of_mem _ hp'))
              (fun q' hq' => hqs q' (List.mem_cons_of_mem _ hq')) htail
          exact ⟨by rw [List.map_cons, List.map_cons, hhead, hlabels], hconstant⟩

theorem isSummand_of_mem {t : Term Float} (hnamed : t.IsNamed) (hfinite : t.IsFinite) :
    ∀ p ∈ Variable.sortByName t.coefficients.toList, IsSummand p := by
  rintro ⟨v, c⟩ hp
  have hmem := (Variable.sortByName_perm _).mem_iff.mp hp
  have hget := OrderedMap.mem_toList_iff.mp hmem
  exact ⟨hnamed v (mem_occurring.mpr ⟨c, hget⟩), hfinite.1 _ hmem, t.nonzero v c hget⟩

/-- Terms of the same words are equal up to their handles. -/
theorem isAlike_of_words {t u : Term Float} (ht : t.IsNamed) (hu : u.IsNamed)
    (htf : t.IsFinite) (huf : u.IsFinite) (h : t.words = u.words) : t.IsAlike u :=
  entryWords_inj htf.2 huf.2 (isSummand_of_mem ht htf) (isSummand_of_mem hu huf) h

end Term

end LinearProgram
