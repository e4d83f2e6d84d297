import LinearProgram.LpText.Statement
import LinearProgram.Proofs.Decimal.ReadBack
import LinearProgram.Proofs.Text.Spaced

/-!
# `LinearProgram.Proofs.LpText.Names`: which characters words are made of

A name, a number and a sign are told apart by their characters. Names
are ASCII, so what is said of their characters is settled by going
through the 128 of them.

* `isNameChar_plain`: what a character in a name is not, all at once.
* `isWord_of_isName`, `isWord_plain`: names and numbers are words.
* `numeral_not_name`: a number does not begin as a name does.
-/

set_option autoImplicit false

namespace LinearProgram.LpText

open Text (isBlank IsWord)
open Decimal (plain)

/-! ### Going through ASCII -/

theorem forall_ascii {P : Char → Prop} (h : ∀ n < 128, P (Char.ofNat n)) {c : Char}
    (hc : c.toNat < 128) : P c := by
  have hp := h c.toNat hc
  rwa [Char.ofNat_toNat] at hp

theorem isAlphanum_ascii {c : Char} (h : c.isAlphanum = true) : c.toNat < 128 := by
  have hbound : ∀ d : Char, d.toNat < 128 → c.val ≤ d.val → c.toNat < 128 := by
    intro d hd hle
    exact Nat.lt_of_le_of_lt (UInt32.le_iff_toNat_le.mp hle) hd
  rcases Bool.or_eq_true_iff.mp h with halpha | hdigit
  · rcases Bool.or_eq_true_iff.mp halpha with hupper | hlower
    · exact hbound 'Z' (by decide) (of_decide_eq_true hupper).2
    · exact hbound 'z' (by decide) (of_decide_eq_true (Bool.and_eq_true_iff.mp hlower).2)
  · exact hbound '9' (by decide) (of_decide_eq_true (Bool.and_eq_true_iff.mp hdigit).2)

theorem isNameChar_ascii {c : Char} (h : isNameChar c = true) : c.toNat < 128 := by
  rw [isNameChar, Bool.or_eq_true, List.contains_iff_mem] at h
  rcases h with h | h
  · exact isAlphanum_ascii h
  · have hsigns : nameSigns.all (fun d => d.toNat < 128) = true := by decide
    exact of_decide_eq_true (List.all_eq_true.mp hsigns c h)

/-- No character of a name is blank, an operator or the beginning of a
comment. -/
theorem isNameChar_plain {c : Char} (h : isNameChar c = true) :
    isBlank c = false ∧ isOperator c = false ∧ c ≠ '\\' := by
  refine forall_ascii (P := fun c => isNameChar c = true →
    isBlank c = false ∧ isOperator c = false ∧ c ≠ '\\') ?_ (isNameChar_ascii h) h
  decide +kernel

/-- A name does not begin as a number does. -/
theorem isNameStart_plain {c : Char} (h : isNameStart c = true) :
    isNameChar c = true ∧ c.isDigit = false ∧ isNumeral c = false := by
  have hascii : c.toNat < 128 := by
    rw [isNameStart, Bool.or_eq_true, beq_iff_eq] at h
    rcases h with h | rfl
    · exact isAlphanum_ascii (by rw [Char.isAlphanum, h, Bool.true_or])
    · decide
  refine forall_ascii (P := fun c => isNameStart c = true →
    isNameChar c = true ∧ c.isDigit = false ∧ isNumeral c = false) ?_ hascii h
  decide +kernel

/-- No character of a number is blank, an operator or the beginning of a
comment. -/
theorem isNumeral_plain {c : Char} (h : c.isDigit = true ∨ c = '.') :
    isNumeral c = true ∧ isBlank c = false ∧ isOperator c = false ∧ c ≠ '\\' := by
  have hascii : c.toNat < 128 := by
    rcases h with h | rfl
    · exact isAlphanum_ascii (by rw [Char.isAlphanum, h, Bool.or_true])
    · decide
  refine forall_ascii (P := fun c => c.isDigit = true ∨ c = '.' →
    isNumeral c = true ∧ isBlank c = false ∧ isOperator c = false ∧ c ≠ '\\') ?_ hascii h
  decide +kernel

/-! ### Names -/

/-- A name is a first character and others. -/
theorem isName_cons {w : List Char} (h : isName w = true) :
    ∃ c rest, w = c :: rest ∧ isNameStart c = true ∧ ∀ d ∈ rest, isNameChar d = true := by
  cases w with
  | nil => cases h
  | cons c rest =>
      rw [isName, Bool.and_eq_true, List.all_eq_true] at h
      exact ⟨c, rest, rfl, h⟩

theorem isNameChar_of_isName {w : List Char} (h : isName w = true) :
    ∀ c ∈ w, isNameChar c = true := by
  obtain ⟨c, rest, rfl, hstart, hrest⟩ := isName_cons h
  intro d hd
  rcases List.mem_cons.mp hd with rfl | hd
  · exact (isNameStart_plain hstart).1
  · exact hrest d hd

theorem isWord_of_isName {w : List Char} (h : isName w = true) : IsWord w := by
  refine ⟨?_, fun c hc => (isNameChar_plain (isNameChar_of_isName h c hc)).1⟩
  rintro rfl
  cases h

/-! ### Numbers -/

/-- A text that begins with a digit, and with a minus sign or not. -/
def IsSignedNumeral (w : List Char) : Prop :=
  ∃ c rest, (w = c :: rest ∨ w = '-' :: c :: rest) ∧ c.isDigit = true

/-- What is written of a finite number begins with a digit, possibly
behind a minus sign. -/
theorem isSignedNumeral_plain {x : Float} (h : x.isFinite = true) :
    IsSignedNumeral (plain x).toList := by
  have hcode : Binary64.code x < Binary64.infinityCode := Binary64.isFinite_iff.mp h
  have hnan : x.isNaN = false := by
    rw [← Bool.not_eq_true, Binary64.isNaN_iff]
    exact Nat.not_lt.mpr (Nat.le_of_lt hcode)
  obtain ⟨⟨c, rest, htext, hdigit⟩, _⟩ :=
    Decimal.numeral_unsignedText (Nat.ne_of_lt hcode)
  refine ⟨c, rest, ?_, hdigit⟩
  rw [Decimal.plain_toList hnan, htext]
  cases Binary64.isNegative x with
  | false => exact .inl rfl
  | true => exact .inr rfl

/-- A number is not written like a name. -/
theorem IsSignedNumeral.not_isName {w : List Char} (h : IsSignedNumeral w) : isName w = false := by
  obtain ⟨c, rest, h, hdigit⟩ := h
  rw [← Bool.not_eq_true]
  intro hname
  obtain ⟨d, rest', hcons, hstart, _⟩ := isName_cons hname
  rcases h with h | h
  · rw [h] at hcons
    cases hcons
    rw [(isNameStart_plain hstart).2.1] at hdigit
    cases hdigit
  · rw [h] at hcons
    cases hcons
    exact absurd hstart (by decide)

theorem isWord_cons {c : Char} (hc : isBlank c = false) {w : List Char}
    (hw : ∀ d ∈ w, isBlank d = false) : IsWord (c :: w) := by
  refine ⟨List.cons_ne_nil _ _, fun d hd => ?_⟩
  rcases List.mem_cons.mp hd with rfl | hd
  · exact hc
  · exact hw d hd

theorem isWord_unsignedText (c : Nat) : IsWord (Decimal.unsignedText c) := by
  by_cases hinf : c = Binary64.infinityCode
  · rw [Decimal.unsignedText, if_pos hinf]
    decide
  · obtain ⟨⟨d, rest, hcons, _⟩, hall⟩ := Decimal.numeral_unsignedText hinf
    exact ⟨hcons ▸ List.cons_ne_nil _ _, fun e he => (isNumeral_plain (hall e he)).2.1⟩

/-- Every written number is a word, not a number included. -/
theorem isWord_plain (x : Float) : IsWord (plain x).toList := by
  cases hnan : x.isNaN with
  | true =>
      have hcode := Binary64.isNaN_iff.mp hnan
      have htext : plain x = "NaN" := by
        rw [plain, Decimal.signed]
        exact if_pos hcode
      rw [htext]
      decide
  | false =>
      rw [Decimal.plain_toList hnan]
      split
      · exact isWord_cons (by decide) (isWord_unsignedText _).2
      · exact isWord_unsignedText _

/-! ### Words without the beginning of a comment -/

/-- A word without a backslash. -/
def IsPlainWord (w : List Char) : Prop := IsWord w ∧ ∀ c ∈ w, c ≠ '\\'

instance (w : List Char) : Decidable (IsPlainWord w) :=
  @instDecidableAnd _ _ _ (List.decidableBAll _ w)

theorem isPlainWord_cons {c : Char} (hblank : isBlank c = false) (hc : c ≠ '\\') {w : List Char}
    (h : IsPlainWord w) : IsPlainWord (c :: w) := by
  refine ⟨isWord_cons hblank h.1.2, fun d hd => ?_⟩
  rcases List.mem_cons.mp hd with rfl | hd
  · exact hc
  · exact h.2 d hd

theorem isPlainWord_of_isName {w : List Char} (h : isName w = true) : IsPlainWord w :=
  ⟨isWord_of_isName h, fun c hc => (isNameChar_plain (isNameChar_of_isName h c hc)).2.2⟩

theorem isPlainWord_unsignedText (c : Nat) : IsPlainWord (Decimal.unsignedText c) := by
  refine ⟨isWord_unsignedText c, ?_⟩
  by_cases hinf : c = Binary64.infinityCode
  · rw [Decimal.unsignedText, if_pos hinf]
    rintro _ hc rfl
    exact absurd hc (by decide)
  · obtain ⟨_, hall⟩ := Decimal.numeral_unsignedText hinf
    exact fun e he => (isNumeral_plain (hall e he)).2.2.2

theorem isPlainWord_plain (x : Float) : IsPlainWord (plain x).toList := by
  refine ⟨isWord_plain x, ?_⟩
  cases hnan : x.isNaN with
  | true =>
      have htext : plain x = "NaN" := by
        rw [plain, Decimal.signed]
        exact if_pos (Binary64.isNaN_iff.mp hnan)
      rw [htext]
      rintro _ hc rfl
      exact absurd hc (by decide)
  | false =>
      rw [Decimal.plain_toList hnan]
      split
      · intro d hd
        rcases List.mem_cons.mp hd with rfl | hd
        · decide
        · exact (isPlainWord_unsignedText _).2 d hd
      · exact (isPlainWord_unsignedText _).2

end LinearProgram.LpText
