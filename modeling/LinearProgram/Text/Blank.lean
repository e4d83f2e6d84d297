/-!
# `LinearProgram.Text.Blank`: blank characters, words and lines

Every reader of this library takes its input apart in the same three
ways: it drops the blanks around a text, it splits a text into words,
and it splits a text into lines. Blank means the Unicode property
`White_Space`, which also holds of the no-break and the ideographic
space, and not of the zero-width space.

* `isBlank_of_isWhitespace`: what core calls white space is blank.
* `trim`, `words` and `lines` work on characters.
-/

set_option autoImplicit false

namespace LinearProgram.Text

/-- The characters with the Unicode property `White_Space`. -/
def isBlank (c : Char) : Bool :=
  let n := c.toNat
  (0x09 ≤ n && n ≤ 0x0d) || n == 0x20 || n == 0x85 || n == 0xa0 || n == 0x1680
    || (0x2000 ≤ n && n ≤ 0x200a) || n == 0x2028 || n == 0x2029 || n == 0x202f
    || n == 0x205f || n == 0x3000

theorem isBlank_of_isWhitespace {c : Char} (h : c.isWhitespace = true) : isBlank c = true := by
  simp only [Char.isWhitespace, Bool.or_eq_true, decide_eq_true_eq] at h
  rcases h with ((rfl | rfl) | rfl) | rfl <;> decide

/-- The text from its first character that is not blank. -/
def trimLeft (cs : List Char) : List Char := cs.dropWhile isBlank

/-- The text up to its last character that is not blank. -/
def trimRight (cs : List Char) : List Char := (cs.reverse.dropWhile isBlank).reverse

/-- The text without blanks at either end. -/
def trim (cs : List Char) : List Char := trimRight (trimLeft cs)

/-- Whether a text begins with a character that is not blank. -/
def startsWord : List Char → Bool
  | [] => false
  | c :: _ => !isBlank c

/-- The maximal runs of characters that are not blank. -/
def words : List Char → List (List Char)
  | [] => []
  | c :: rest =>
    if isBlank c then words rest
    else if startsWord rest then
      match words rest with
      | word :: others => (c :: word) :: others
      | [] => [[c]]
    else [c] :: words rest

/-- The lines of a text. A line feed ends a line, together with a
carriage return before it, and nothing follows the last one. -/
def lines : List Char → List (List Char)
  | [] => []
  | '\r' :: '\n' :: rest => [] :: lines rest
  | '\n' :: rest => [] :: lines rest
  | c :: rest =>
    match lines rest with
    | line :: others => (c :: line) :: others
    | [] => [[c]]

/-- The text before the first `c` and, if there is one, the text after it. -/
def splitAt (c : Char) (cs : List Char) : List Char × Option (List Char) :=
  match cs.dropWhile (· ≠ c) with
  | [] => (cs, none)
  | _ :: rest => (cs.takeWhile (· ≠ c), some rest)

/-- The text after `head`, if it begins so. -/
def stripHead? : List Char → List Char → Option (List Char)
  | [], cs => some cs
  | _ :: _, [] => none
  | h :: head, c :: cs => if h = c then stripHead? head cs else none

/-- The text with spaces behind it, up to `width` characters. -/
def padRight (width : Nat) (s : String) : String :=
  s ++ String.ofList (List.replicate (width - s.length) ' ')

/-- Trims a string. -/
def trimmed (s : String) : String := String.ofList (trim s.toList)

end LinearProgram.Text
