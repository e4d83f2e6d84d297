import LinearProgram.Proofs.LpText.Reading.Items
import LinearProgram.Proofs.LpText.Reading.Tokens

/-!
# `LinearProgram.Proofs.LpText.Reading.Headers`: which written lines are no headers

A line is a header if its first word is a keyword and no operator
follows it. In a written line an operator follows nearly every name: the
exceptions are the names that stand alone on their line, and a name in
front of `FREE`.

* `header?_eq_none`: a line is no header if its first word is none of
  the words that open sections, or if its second word begins with an
  operator (`IsNoHeader`). `header?_lone` and
  `header?_eq_none_of_second` are about the exceptions.
* `entryWords_cases`: how the words of a term begin.
-/

set_option autoImplicit false

namespace LinearProgram.LpText

open Decimal (plain)
open Text (spaced IsWord isBlank)

/-! ### The words of a line -/

/-- The tokens of a line. -/
theorem tokenize_joined {ws : List (List Char)} {ts : List (Token Float)} (h : Spells ws ts) :
    tokenize (joined ws) = .ok ts := by
  rw [← tokenize_spaced h]
  cases ws with
  | nil => rfl
  | cons w ws => exact (tokenize_blank _).symm

theorem trimLeft_spaced {ws : List (List Char)} (h : ∀ w ∈ ws, IsWord w) :
    Text.trimLeft (spaced ws) = joined ws := by
  cases ws with
  | nil => rfl
  | cons w ws =>
      show Text.trimLeft (' ' :: (w ++ spaced ws)) = w ++ spaced ws
      rw [Text.trimLeft_of_isBlank Text.isBlank_space,
        Text.trimLeft_of_isWord (h w (List.mem_cons_self ..))]

theorem firstWord_joined {w : List Char} {ws : List (List Char)} (hw : IsWord w)
    (hws : ∀ v ∈ ws, IsWord v) :
    firstWord (joined (w :: ws)) = (String.ofList (folded w), joined ws) := by
  have hall : ∀ c ∈ w, (!isBlank c) = true := by
    intro c hc
    rw [hw.2 c hc]
    rfl
  have htake : (w ++ spaced ws).takeWhile (fun c => !isBlank c) = w := by
    rw [List.takeWhile_append_of_pos hall]
    cases ws with
    | nil => exact List.append_nil w
    | cons v ws =>
        show w ++ (' ' :: (v ++ spaced ws)).takeWhile (fun c => !isBlank c) = w
        rw [List.takeWhile_cons, if_neg (by rw [Text.isBlank_space]; exact Bool.false_ne_true),
          List.append_nil]
  have hdrop : (w ++ spaced ws).dropWhile (fun c => !isBlank c) = spaced ws := by
    rw [List.dropWhile_append_of_pos hall]
    cases ws with
    | nil => rfl
    | cons v ws =>
        show (' ' :: (v ++ spaced ws)).dropWhile (fun c => !isBlank c) = _
        rw [List.dropWhile_cons, if_neg (by rw [Text.isBlank_space]; exact Bool.false_ne_true)]
        rfl
  show (String.ofList (folded ((w ++ spaced ws).takeWhile fun c => !isBlank c)),
    Text.trimLeft ((w ++ spaced ws).dropWhile fun c => !isBlank c)) = _
  rw [htake, hdrop, trimLeft_spaced hws]

/-- Whether a word opens a section by itself. -/
def isKeyword (w : List Char) : Bool := (sectionOfWord? (String.ofList (folded w))).isSome

/-- Whether a word begins no header. -/
def BeginsNoHeader (w : List Char) : Prop :=
  isKeyword w = false ∧ secondWord? (String.ofList (folded w)) = none

/-- A line is no header if its first word opens no section and what
follows is not the second word of a header. -/
theorem header?_eq_none_of_second {w : List Char} {ws : List (List Char)} (hw : IsWord w)
    (hws : ∀ v ∈ ws, IsWord v) (hkeyword : isKeyword w = false)
    (hsecond : ∀ e, secondWord? (String.ofList (folded w)) = some e →
      (firstWord (joined ws)).1 ≠ e) : header? (joined (w :: ws)) = none := by
  rw [isKeyword, Option.isSome_eq_false_iff, Option.isNone_iff_eq_none] at hkeyword
  rw [header?, firstWord_joined hw hws]
  cases hexpected : secondWord? (String.ofList (folded w)) with
  | none => simp only [hexpected, hkeyword]
  | some e =>
      have hne := hsecond e hexpected
      simp only [hexpected, if_neg hne]

/-- A word alone is a header exactly if it is a keyword. -/
theorem header?_lone {w : List Char} (hw : IsWord w) (h : isKeyword w = false) :
    header? (joined [w]) = none := by
  refine header?_eq_none_of_second hw (by simp) h fun e he hempty => ?_
  have hempty : "" = e := hempty
  unfold secondWord? at he
  split at he
  · cases he
    exact absurd hempty (by decide)
  split at he
  · cases he
    exact absurd hempty (by decide)
  · cases he

theorem startsWithOperator_joined {v : List Char} {vs : List (List Char)} {c : Char}
    (hv : v.head? = some c) (hc : isOperator c = true) :
    startsWithOperator (joined (v :: vs)) = true := by
  cases v with
  | nil => cases hv
  | cons d v =>
      cases hv
      exact hc

/-- A line whose second word begins with an operator is no header. -/
theorem header?_eq_none_of_operator {w v : List Char} {vs : List (List Char)} {c : Char}
    (hw : IsWord w) (hws : ∀ u ∈ v :: vs, IsWord u) (hv : v.head? = some c)
    (hc : isOperator c = true) : header? (joined (w :: v :: vs)) = none := by
  rw [header?, firstWord_joined hw hws]
  cases hexpected : secondWord? (String.ofList (folded w)) with
  | none =>
      cases hsection : sectionOfWord? (String.ofList (folded w)) with
      | none => simp only [hexpected, hsection]
      | some o =>
          simp only [hexpected, hsection, startsWithOperator_joined hv hc, if_true]
  | some e =>
      -- The second word of a header begins with a letter.
      have hsecond : String.ofList (folded v) ≠ e := by
        intro heq
        have hhead : (folded v).head? = some c.toLower := by
          rw [folded, List.head?_map, hv]
          rfl
        have htoList : e.toList.head? = some c.toLower := by
          rw [← heq, String.toList_ofList]
          exact hhead
        have hlower : c.toLower ≠ 't' := by
          simp only [isOperator, List.contains_iff_mem, List.mem_cons, List.not_mem_nil,
            or_false] at hc
          rcases hc with rfl | rfl | rfl | rfl | rfl | rfl | rfl <;> decide
        unfold secondWord? at hexpected
        split at hexpected
        · cases hexpected
          exact hlower (Option.some.inj htoList).symm
        split at hexpected
        · cases hexpected
          exact hlower (Option.some.inj htoList).symm
        · cases hexpected
      have hfirst := firstWord_joined (hws v (List.mem_cons_self ..))
        fun u hu => hws u (List.mem_cons_of_mem _ hu)
      simp only [hexpected, hfirst, if_neg hsecond]

/-! ### Words that begin no header -/

/-- All words that a header begins with. -/
def headerWords : List String :=
  ["max", "maximize", "maximise", "maximum", "min", "minimize", "minimise", "minimum", "s.t.",
    "st", "st.", "bound", "bounds", "bin", "binary", "binaries", "gen", "general", "generals",
    "end", "subject", "such"]

theorem mem_headerWords_of_section {word : String} {o : Section}
    (h : sectionOfWord? word = some o) : word ∈ headerWords := by
  have hmem : ∀ l : List String, l.contains word = true → (∀ k ∈ l, k ∈ headerWords) →
      word ∈ headerWords := fun l hl hsub => hsub word (List.contains_iff_mem.mp hl)
  unfold sectionOfWord? at h
  split at h
  · exact hmem _ ‹_› (by decide)
  split at h
  · exact hmem _ ‹_› (by decide)
  split at h
  · exact hmem _ ‹_› (by decide)
  split at h
  · exact hmem _ ‹_› (by decide)
  split at h
  · exact hmem _ ‹_› (by decide)
  split at h
  · exact hmem _ ‹_› (by decide)
  split at h
  · rename_i heq
    rw [heq]
    decide
  · cases h

theorem mem_headerWords_of_second {word e : String} (h : secondWord? word = some e) :
    word ∈ headerWords := by
  unfold secondWord? at h
  split at h
  · rename_i heq
    rw [heq]
    decide
  split at h
  · rename_i heq
    rw [heq]
    decide
  · cases h

theorem beginsNoHeader_of_not_mem {w : List Char}
    (h : ¬ String.ofList (folded w) ∈ headerWords) : BeginsNoHeader w := by
  constructor
  · rw [isKeyword, Option.isSome_eq_false_iff, Option.isNone_iff_eq_none]
    cases hsection : sectionOfWord? (String.ofList (folded w)) with
    | none => rfl
    | some o => exact absurd (mem_headerWords_of_section hsection) h
  · cases hsecond : secondWord? (String.ofList (folded w)) with
    | none => rfl
    | some e => exact absurd (mem_headerWords_of_second hsecond) h

/-- No header begins with such a character. -/
theorem beginsNoHeader_of_head {c : Char} (w : List Char)
    (h : ¬ c.toLower ∈ ['m', 's', 'b', 'g', 'e']) : BeginsNoHeader (c :: w) := by
  refine beginsNoHeader_of_not_mem fun hmem => ?_
  have hheads : ∀ k ∈ headerWords,
      k.toList.head?.any (['m', 's', 'b', 'g', 'e'].contains ·) = true := by decide
  have hhead := hheads _ hmem
  rw [String.toList_ofList] at hhead
  exact h (List.contains_iff_mem.mp hhead)

/-- No header has a colon in its first word. -/
theorem beginsNoHeader_label (w : List Char) : BeginsNoHeader (w ++ [':']) := by
  refine beginsNoHeader_of_not_mem fun hmem => ?_
  have hcolon : ∀ k ∈ headerWords, ¬ ':' ∈ k.toList := by decide
  refine hcolon _ hmem ?_
  rw [String.toList_ofList, folded, List.map_append]
  exact List.mem_append_right _ (List.mem_singleton_self _)

theorem toLower_of_isDigit {c : Char} (h : c.isDigit = true) :
    ¬ c.toLower ∈ ['m', 's', 'b', 'g', 'e'] := by
  have hascii : c.toNat < 128 := isAlphanum_ascii (by rw [Char.isAlphanum, h, Bool.or_true])
  refine forall_ascii (P := fun c => c.isDigit = true →
    ¬ c.toLower ∈ ['m', 's', 'b', 'g', 'e']) ?_ hascii h
  decide +kernel

/-- No header begins with a number, infinity included. -/
theorem beginsNoHeader_plain {x : Float} (h : x.isNaN = false) :
    BeginsNoHeader (plain x).toList := by
  rw [Decimal.plain_toList h]
  split
  · exact beginsNoHeader_of_head _ (by decide)
  · by_cases hinf : Binary64.code x = Binary64.infinityCode
    · rw [Decimal.unsignedText, if_pos hinf]
      exact beginsNoHeader_of_head ['n', 'f'] (by decide)
    · obtain ⟨⟨d, w, hcons, hdigit⟩, _⟩ := Decimal.numeral_unsignedText hinf
      rw [hcons]
      exact beginsNoHeader_of_head w (toLower_of_isDigit hdigit)

/-! ### Lines -/

/-- Whether the first word of a line begins no header, or the second one
begins with an operator. -/
def IsNoHeader : List (List Char) → Prop
  | [] => True
  | [w] => BeginsNoHeader w
  | w :: v :: _ => BeginsNoHeader w ∨ ∃ c, v.head? = some c ∧ isOperator c = true

theorem isNoHeader_of_first {w : List Char} (h : BeginsNoHeader w) (ws : List (List Char)) :
    IsNoHeader (w :: ws) := by
  cases ws with
  | nil => exact h
  | cons v vs => exact .inl h

theorem IsNoHeader.append {ws : List (List Char)} (h : IsNoHeader ws) (hne : ws ≠ [])
    (vs : List (List Char)) : IsNoHeader (ws ++ vs) := by
  match ws with
  | [] => exact absurd rfl hne
  | [w] => exact isNoHeader_of_first h vs
  | w :: v :: us => exact h

theorem header?_eq_none {ws : List (List Char)} (hws : ∀ w ∈ ws, IsWord w) (h : IsNoHeader ws) :
    header? (joined ws) = none := by
  match ws with
  | [] => rfl
  | w :: vs =>
      have hw := hws w (List.mem_cons_self ..)
      have hvs : ∀ v ∈ vs, IsWord v := fun v hv => hws v (List.mem_cons_of_mem _ hv)
      have hfirst : BeginsNoHeader w → header? (joined (w :: vs)) = none := by
        intro hbegins
        refine header?_eq_none_of_second hw hvs hbegins.1 fun e he => ?_
        rw [hbegins.2] at he
        cases he
      match vs with
      | [] => exact hfirst h
      | v :: us =>
          rcases h with h | ⟨c, hhead, hc⟩
          · exact hfirst h
          · exact header?_eq_none_of_operator hw hvs hhead hc

/-! ### Terms -/

/-- What follows the first summand begins with a sign. -/
theorem laterWords_cases (rest : List (Variable × Float)) (constant : Float) :
    Term.laterWords rest constant = []
      ∨ ∃ c ws, Term.laterWords rest constant = [c] :: ws ∧ isOperator c = true := by
  cases rest with
  | nil =>
      show Term.constantWords constant = [] ∨ ∃ c ws, Term.constantWords constant = _ ∧ _
      unfold Term.constantWords
      split
      · exact .inr ⟨'-', _, rfl, by decide⟩
      split
      · exact .inr ⟨'+', _, rfl, by decide⟩
      · exact .inl rfl
  | cons p rest =>
      rw [Term.laterWords_cons, Term.nextWords]
      split
      · exact .inr ⟨'-', _, rfl, by decide⟩
      · exact .inr ⟨'+', _, rfl, by decide⟩

/-- The words of a term begin no header, unless they are one name. -/
theorem entryWords_cases {entries : List (Variable × Float)} {constant : Float}
    (hconstant : entries = [] → constant.isNaN = false) (h : ∀ p ∈ entries, IsReadable p) :
    IsNoHeader (Term.entryWords entries constant)
      ∨ ∃ p ∈ entries, Term.entryWords entries constant = [p.1.name.toList] := by
  cases entries with
  | nil => exact .inl (beginsNoHeader_plain (hconstant rfl))
  | cons p rest =>
      have hc := (h p (List.mem_cons_self ..)).2
      show IsNoHeader (Term.firstWords p.1 p.2 ++ Term.laterWords rest constant) ∨ _
      rw [Term.entryWords, Term.firstWords]
      split
      · obtain ⟨w, ws, hcons⟩ := Term.factorWords_eq_cons (-p.2) p.1.name
        rw [hcons]
        exact .inl (isNoHeader_of_first (beginsNoHeader_of_head w (by decide)) _)
      rw [Term.factorWords]
      split
      · rcases laterWords_cases rest constant with hnil | ⟨c, ws, hcons, hop⟩
        · exact .inr ⟨p, List.mem_cons_self .., by rw [hnil, List.append_nil]⟩
        · rw [hcons]
          exact .inl (.inr ⟨c, rfl, hop⟩)
      · exact .inl (isNoHeader_of_first (beginsNoHeader_plain hc) _)

theorem entryWords_ne_nil (entries : List (Variable × Float)) (constant : Float) :
    Term.entryWords entries constant ≠ [] := by
  cases entries with
  | nil => exact List.cons_ne_nil _ _
  | cons p rest =>
      rw [Term.entryWords, Term.firstWords]
      obtain ⟨w, ws, hcons⟩ := Term.factorWords_eq_cons (-p.2) p.1.name
      obtain ⟨v, vs, hcons'⟩ := Term.factorWords_eq_cons p.2 p.1.name
      rw [hcons, hcons']
      split
      · exact List.cons_ne_nil _ _
      · exact List.cons_ne_nil _ _

/-- A term in front of an operator begins no header. -/
theorem isNoHeader_entryWords {entries : List (Variable × Float)} {constant : Float}
    (hconstant : entries = [] → constant.isNaN = false) (h : ∀ p ∈ entries, IsReadable p)
    {v : List Char} {c : Char} (hv : v.head? = some c) (hc : isOperator c = true)
    (vs : List (List Char)) : IsNoHeader (Term.entryWords entries constant ++ v :: vs) := by
  rcases entryWords_cases hconstant h with hno | ⟨p, _, hcons⟩
  · exact hno.append (entryWords_ne_nil entries constant) _
  · rw [hcons]
    exact .inr ⟨c, hv, hc⟩

end LinearProgram.LpText
