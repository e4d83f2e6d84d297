import LinearProgram.Decimal.Literal
import LinearProgram.Decimal.Notation
import LinearProgram.Proofs.Binary64.Comparison
import LinearProgram.Proofs.Decimal.Nearest

/-!
# `LinearProgram.Proofs.Decimal.ReadBack`: written numbers are read back exactly

The plain notation of a double that is not `NaN` reads back as the same
double, sign of zero included.

* `unsignedText` is what stands behind the sign, `plain_toList` ties it
  to `plain`.
* `numeral_unsignedText`: the text of a finite number is made of digits
  and points and begins with a digit.
* `magnitude?_unsignedText` and `read_plain`: reading back.
* `plain_injective`: different numbers are written differently.
-/

set_option autoImplicit false

namespace LinearProgram.Decimal

open Binary64 (infinityCode)

/-! ### Digits -/

theorem digitsValue_append (cs ds : List Char) :
    digitsValue (cs ++ ds) = 10 ^ ds.length * digitsValue cs + digitsValue ds := by
  show Nat.ofDigitChars 10 (cs ++ ds) 0 = _
  rw [Nat.ofDigitChars_append, Nat.ofDigitChars_eq_ofDigitChars_zero]
  rfl

theorem digitsValue_zeros (k : Nat) : digitsValue (List.replicate k '0') = 0 := by
  show Nat.ofDigitChars 10 (List.replicate k '0') 0 = 0
  rw [Nat.ofDigitChars_replicate_zero, Nat.mul_zero]

theorem digitsValue_digitsOf (n : Nat) : digitsValue (digitsOf n) = n :=
  Nat.ofDigitChars_ten_toDigits

theorem isDigit_of_mem_digitsOf {n : Nat} {c : Char} (h : c ∈ digitsOf n) : c.isDigit = true :=
  Nat.isDigit_of_mem_toDigits (by decide) (by decide) h

theorem isDigit_of_mem_zeros {k : Nat} {c : Char} (h : c ∈ List.replicate k '0') :
    c.isDigit = true := by
  rw [List.eq_of_mem_replicate h]
  rfl

/-! ### Digits with and without a point -/

theorem takeWhile_all {p : Char → Bool} {cs : List Char} (h : ∀ c ∈ cs, p c = true) :
    cs.takeWhile p = cs := by
  have := @List.takeWhile_append_of_pos _ p cs [] h
  simpa using this

theorem dropWhile_all {p : Char → Bool} {cs : List Char} (h : ∀ c ∈ cs, p c = true) :
    cs.dropWhile p = [] := by
  have := @List.dropWhile_append_of_pos _ p cs [] h
  simpa using this

/-- A run of digits is a whole number. -/
theorem decimal?_digits {ds : List Char} (hne : ds ≠ []) (h : ∀ c ∈ ds, c.isDigit = true) :
    decimal? ds = some ⟨digitsValue ds, 0⟩ := by
  have hempty : ds.isEmpty = false := by simpa using hne
  simp only [decimal?, takeWhile_all h, dropWhile_all h, hempty, List.append_nil, exponent?,
    Bool.false_and, Bool.false_eq_true, if_false, Option.map_some, List.length_nil]
  rfl

/-- Digits around a point are one run of digits, with as many decimal
places as stand behind the point. -/
theorem decimal?_point {ds es : List Char} (hne : ds ≠ []) (hd : ∀ c ∈ ds, c.isDigit = true)
    (he : ∀ c ∈ es, c.isDigit = true) :
    decimal? (ds ++ '.' :: es) = some ⟨digitsValue (ds ++ es), -es.length⟩ := by
  have hempty : ds.isEmpty = false := by simpa using hne
  have htake : (ds ++ '.' :: es).takeWhile Char.isDigit = ds := by
    rw [List.takeWhile_append_of_pos hd]
    simp
  have hdrop : (ds ++ '.' :: es).dropWhile Char.isDigit = '.' :: es := by
    rw [List.dropWhile_append_of_pos hd]
    simp
  simp only [decimal?, htake, hdrop, takeWhile_all he, dropWhile_all he, hempty, exponent?,
    Bool.false_and, Bool.false_eq_true, if_false, Option.map_some, Int.zero_sub]

/-- What stands around the point are the given digits with zeros in
front. Something stands before it, and behind it as much as asked for. -/
theorem pointed_eq (places : Nat) {ds : List Char} (hd : ∀ c ∈ ds, c.isDigit = true) :
    ∃ whole fraction, pointed places ds = whole ++ '.' :: fraction ∧ whole ≠ []
      ∧ fraction.length = places ∧ digitsValue (whole ++ fraction) = digitsValue ds
      ∧ ∀ c ∈ whole ++ fraction, c.isDigit = true := by
  let padded := List.replicate (places + 1 - ds.length) '0' ++ ds
  have hlen : padded.length = max (places + 1) ds.length := by
    simp only [padded, List.length_append, List.length_replicate]
    omega
  refine ⟨padded.take (padded.length - places), padded.drop (padded.length - places), rfl,
    ?_, ?_, ?_, ?_⟩
  · intro h
    have hl := congrArg List.length h
    rw [List.length_take, List.length_nil] at hl
    omega
  · rw [List.length_drop]
    omega
  · rw [List.take_append_drop, digitsValue_append, digitsValue_zeros, Nat.mul_zero, Nat.zero_add]
  · rw [List.take_append_drop]
    intro c hc
    rcases List.mem_append.mp hc with hc | hc
    · exact isDigit_of_mem_zeros hc
    · exact hd c hc

theorem digitsOf_ne_nil (n : Nat) : digitsOf n ≠ [] := Nat.toDigits_ne_nil

/-- Positional notation reads back as the same double. -/
theorem decimal?_positional (d : Decimal) :
    ∃ e, decimal? (positional d) = some e ∧ e.nearestCode = d.nearestCode := by
  obtain ⟨n, p⟩ := d
  by_cases hp : 0 ≤ p
  · -- Zeros behind the digits are digits when the text is read.
    have hdigit : ∀ c ∈ digitsOf n ++ List.replicate p.toNat '0', c.isDigit = true := by
      intro c hc
      rcases List.mem_append.mp hc with hc | hc
      · exact isDigit_of_mem_digitsOf hc
      · exact isDigit_of_mem_zeros hc
    have hvalue : digitsValue (digitsOf n ++ List.replicate p.toNat '0') = n * 10 ^ p.toNat := by
      rw [digitsValue_append, digitsValue_zeros, digitsValue_digitsOf, List.length_replicate,
        Nat.add_zero, Nat.mul_comm]
    have hne : digitsOf n ++ List.replicate p.toNat '0' ≠ [] :=
      List.append_ne_nil_of_left_ne_nil (digitsOf_ne_nil n) _
    refine ⟨⟨n * 10 ^ p.toNat, 0⟩, ?_, ?_⟩
    · rw [positional, if_pos hp]
      show decimal? (digitsOf n ++ List.replicate p.toNat '0') = _
      rw [decimal?_digits hne hdigit, hvalue]
    · rw [nearestCode_shift n p.toNat 0 (Int.le_refl 0), show (0 : Int) + p.toNat = p by omega]
  · obtain ⟨whole, fraction, htext, hne, hlen, hvalue, hdigit⟩ :=
      pointed_eq (-p).toNat (fun _ => isDigit_of_mem_digitsOf)
    refine ⟨⟨n, p⟩, ?_, rfl⟩
    rw [positional, if_neg hp, htext,
      decimal?_point hne (fun c hc => hdigit c (List.mem_append_left _ hc))
        fun c hc => hdigit c (List.mem_append_right _ hc),
      hvalue, digitsValue_digitsOf, hlen, show -((-p).toNat : Int) = p by omega]

/-! ### The text behind the sign -/

/-- What is written of a number behind its sign, by its code. -/
def unsignedText (c : Nat) : List Char :=
  if c = infinityCode then "inf".toList
  else if c = 0 then ['0']
  else positional (shortest c)

theorem plain_toList {x : Float} (h : x.isNaN = false) :
    (plain x).toList
      = if Binary64.isNegative x then '-' :: unsignedText (Binary64.code x)
        else unsignedText (Binary64.code x) := by
  have hle : ¬ infinityCode < Binary64.code x := by
    rw [← Binary64.isNaN_iff, h]
    exact Bool.false_ne_true
  simp only [plain, signed, if_neg hle, String.toList_ofList]
  rfl

/-- A text that begins with a digit and is made of digits and points. -/
def Numeral (cs : List Char) : Prop :=
  (∃ c rest, cs = c :: rest ∧ c.isDigit = true) ∧ ∀ c ∈ cs, c.isDigit = true ∨ c = '.'

theorem numeral_append {ds cs : List Char} (hne : ds ≠ []) (hd : ∀ c ∈ ds, c.isDigit = true)
    (hc : ∀ c ∈ cs, c.isDigit = true ∨ c = '.') : Numeral (ds ++ cs) := by
  cases ds with
  | nil => exact absurd rfl hne
  | cons d ds =>
      refine ⟨⟨d, ds ++ cs, rfl, hd d (List.mem_cons_self ..)⟩, fun c hmem => ?_⟩
      rcases List.mem_append.mp hmem with h | h
      · exact .inl (hd c h)
      · exact hc c h

theorem numeral_positional (d : Decimal) : Numeral (positional d) := by
  obtain ⟨n, p⟩ := d
  by_cases hp : 0 ≤ p
  · rw [positional, if_pos hp]
    exact numeral_append (digitsOf_ne_nil n) (fun _ => isDigit_of_mem_digitsOf)
      fun _ hc => .inl (isDigit_of_mem_zeros hc)
  · rw [positional, if_neg hp]
    obtain ⟨whole, fraction, htext, hne, _, _, hdigit⟩ :=
      pointed_eq (-p).toNat (fun _ => isDigit_of_mem_digitsOf)
    rw [htext]
    refine numeral_append hne (fun c hc => hdigit c (List.mem_append_left _ hc)) fun c hc => ?_
    rcases List.mem_cons.mp hc with rfl | hc
    · exact .inr rfl
    · exact .inl (hdigit c (List.mem_append_right _ hc))

theorem numeral_unsignedText {c : Nat} (h : c ≠ infinityCode) : Numeral (unsignedText c) := by
  rw [unsignedText, if_neg h]
  split
  · exact ⟨⟨'0', [], rfl, rfl⟩, by simp⟩
  · exact numeral_positional _

/-! ### Reading back -/

theorem magnitude?_unsignedText (negative : Bool) {c : Nat} (h : c ≤ infinityCode) :
    magnitude? negative (unsignedText c) = some (Binary64.ofCode negative c) := by
  by_cases hinf : c = infinityCode
  · subst hinf
    rw [unsignedText, if_pos rfl, magnitude?,
      show decimal? "inf".toList = none from by decide +kernel]
    exact if_pos (by decide +kernel)
  by_cases h0 : c = 0
  · subst h0
    rw [unsignedText, if_neg hinf, if_pos rfl, magnitude?,
      show decimal? ['0'] = some ⟨0, 0⟩ from by decide +kernel]
    rfl
  · obtain ⟨e, he, hcode⟩ := decimal?_positional (shortest c)
    rw [unsignedText, if_neg hinf, if_neg h0, magnitude?, he]
    show some (e.toFloat negative) = _
    rw [toFloat, hcode, nearestCode_shortest h0 h]

theorem unsignedText_ne_nil (c : Nat) : unsignedText c ≠ [] := by
  by_cases hinf : c = infinityCode
  · rw [unsignedText, if_pos hinf]
    decide
  · obtain ⟨⟨d, rest, hcons, _⟩, _⟩ := numeral_unsignedText hinf
    rw [hcons]
    exact List.cons_ne_nil _ _

/-- No sign is found in front of what stands behind the sign. -/
theorem splitSign_unsignedText (c : Nat) : splitSign (unsignedText c) = (false, unsignedText c) := by
  by_cases hinf : c = infinityCode
  · rw [unsignedText, if_pos hinf]
    rfl
  · obtain ⟨⟨d, rest, hcons, hdigit⟩, _⟩ := numeral_unsignedText hinf
    rw [hcons, splitSign]
    · intro rest heq
      cases heq
      cases hdigit
    · intro rest heq
      cases heq
      cases hdigit

/-- An unsigned text reads back as the number that is not negative. -/
theorem read_unsignedText {c : Nat} (h : c ≤ infinityCode) :
    read (unsignedText c) = .ok (Binary64.ofCode false c) := by
  have hempty : (unsignedText c).isEmpty = false := by simpa using unsignedText_ne_nil c
  simp only [read, hempty, splitSign_unsignedText, magnitude?_unsignedText false h,
    Bool.false_eq_true, if_false]

/-- What is written reads back. -/
theorem read_plain {x : Float} (h : x.isNaN = false) : read (plain x).toList = .ok x := by
  have hle := Binary64.code_le_of_isNaN h
  have hx := Binary64.ofCode_code hle
  rw [plain_toList h]
  cases hneg : Binary64.isNegative x with
  | false =>
      rw [hneg] at hx
      rw [if_neg Bool.false_ne_true, read_unsignedText hle, hx]
  | true =>
      rw [hneg] at hx
      rw [if_pos rfl]
      simp only [read, List.isEmpty_cons, splitSign, magnitude?_unsignedText true hle, hx,
        Bool.false_eq_true, if_false]

/-- Different numbers are written differently. -/
theorem plain_injective {x y : Float} (hx : x.isNaN = false) (hy : y.isNaN = false)
    (h : plain x = plain y) : x = y := by
  have hread := read_plain hx
  rw [h, read_plain hy] at hread
  exact (Except.ok.inj hread).symm

end LinearProgram.Decimal
