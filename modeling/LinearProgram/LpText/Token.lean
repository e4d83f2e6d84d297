import LinearProgram.Decimal.Literal
import LinearProgram.Decimal.Notation
import LinearProgram.Relation
import LinearProgram.Text.Blank

/-!
# `LinearProgram.LpText.Token`: the words of model text

A statement of model text is a sequence of numbers, names, signs and
relations; blanks between them mean nothing. `tokenize` takes a text
apart from left to right, each token being as long as it can be.

* `isName` is the test that a text is one name. Names are what begins
  with a letter or an underscore, except that `inf` and `infinity`, in
  any case, are numbers among tokens.
* `tokenAt_length` is why taking a text apart ends.
-/

set_option autoImplicit false

namespace LinearProgram.LpText

/-- A word of model text, with numbers in `K`. -/
inductive Token (K : Type) where
  | number (value : K)
  | name (text : String)
  | plus
  | minus
  | star
  | colon
  | arrow
  | relation (relation : Relation)
deriving BEq

/-- Why a text cannot be taken apart. -/
inductive TokenError where
  /-- Digits and points that are no number. -/
  | badNumber (literal : String)
  /-- A character that begins no token. -/
  | badCharacter (c : Char)
deriving DecidableEq, Repr

/-- The wording of a text that cannot be taken apart. -/
def TokenError.message : TokenError → String
  | badNumber literal => "invalid number " ++ literal
  | badCharacter c => "unexpected character '" ++ c.toString ++ "'"

/-- A text in double quotes, with a backslash before a quote and before
a backslash. -/
def quoted (text : String) : String :=
  "\"" ++ String.ofList (text.toList.flatMap fun c =>
    if c = '\x22' ∨ c = '\\' then ['\\', c] else [c]) ++ "\""

/-- The name of a relation where a token is quoted. -/
def relationWord : Relation → String
  | .atMost => "LessThanOrEqual"
  | .equal => "Equal"
  | .atLeast => "GreaterThanOrEqual"

/-- A token as it is quoted in an error. -/
def Token.text : Token Float → String
  | number value => "Number(" ++ Decimal.marked value ++ ")"
  | name text => "Ident(" ++ quoted text ++ ")"
  | plus => "Plus"
  | minus => "Minus"
  | star => "Star"
  | colon => "Colon"
  | arrow => "Arrow"
  | relation r => "Rel(" ++ relationWord r ++ ")"

/-! ### Names -/

/-- Whether a name can begin with this character. -/
def isNameStart (c : Char) : Bool := c.isAlpha || c == '_'

/-- The signs that a name can contain. -/
def nameSigns : List Char :=
  ['_', '.', '!', '\x22', '#', '$', '%', '&', '(', ')', ',', ';', '?', '@', '\x27', '\x7b',
    '\x7d', '~', '[', ']', '^', '|']

/-- Whether a name can contain this character. -/
def isNameChar (c : Char) : Bool := c.isAlphanum || nameSigns.contains c

/-- Whether a text is a name. -/
def isName : List Char → Bool
  | [] => false
  | c :: rest => isNameStart c && rest.all isNameChar

/-- A text with its letters from `A` to `Z` in lower case. -/
def folded (cs : List Char) : List Char := cs.map Char.toLower

/-- Whether a name is a word for infinity. -/
def isInfinityWord (cs : List Char) : Bool :=
  folded cs == "inf".toList || folded cs == "infinity".toList

/-! ### Numbers -/

/-- Whether a number can begin with this character. -/
def isNumeral (c : Char) : Bool := c.isDigit || c == '.'

/-- Whether a text begins with a digit. -/
def startsWithDigit : List Char → Bool
  | [] => false
  | c :: _ => c.isDigit

/-- A sign at the front of a text, if there is one, and the rest. -/
def takeSign : List Char → List Char × List Char
  | '+' :: rest => (['+'], rest)
  | '-' :: rest => (['-'], rest)
  | cs => ([], cs)

/-- An exponent at the front of a text, if it has a digit, and the rest. -/
def takeExponent : List Char → List Char × List Char
  | [] => ([], [])
  | e :: rest =>
    let signed := takeSign rest
    if (e == 'e' || e == 'E') && startsWithDigit signed.2 then
      (e :: signed.1 ++ signed.2.takeWhile Char.isDigit, signed.2.dropWhile Char.isDigit)
    else ([], e :: rest)

/-! ### Tokens -/

/-- The token that begins with `c`, and the text behind it. -/
def tokenAt (c : Char) (rest : List Char) : Except TokenError (Token Float × List Char) :=
  match c, rest with
  | '+', rest => .ok (.plus, rest)
  | '-', '>' :: rest => .ok (.arrow, rest)
  | '-', rest => .ok (.minus, rest)
  | '*', rest => .ok (.star, rest)
  | ':', rest => .ok (.colon, rest)
  | '<', '=' :: rest => .ok (.relation .atMost, rest)
  | '=', '<' :: rest => .ok (.relation .atMost, rest)
  | '>', '=' :: rest => .ok (.relation .atLeast, rest)
  | '=', '>' :: rest => .ok (.relation .atLeast, rest)
  | '=', '=' :: rest => .ok (.relation .equal, rest)
  | '<', rest => .ok (.relation .atMost, rest)
  | '>', rest => .ok (.relation .atLeast, rest)
  | '=', rest => .ok (.relation .equal, rest)
  | c, rest =>
    if isNumeral c then
      let (exponent, after) := takeExponent (rest.dropWhile isNumeral)
      let literal := c :: rest.takeWhile isNumeral ++ exponent
      match Decimal.read literal with
      | .ok value => .ok (.number value, after)
      | .error _ => .error (.badNumber (String.ofList literal))
    else if isNameStart c then
      let name := c :: rest.takeWhile isNameChar
      .ok (if isInfinityWord name then .number Binary64.infinity else .name (String.ofList name),
        rest.dropWhile isNameChar)
    else .error (.badCharacter c)

theorem length_dropWhile_le (p : Char → Bool) (cs : List Char) :
    (cs.dropWhile p).length ≤ cs.length := (List.dropWhile_sublist p).length_le

theorem length_takeSign_le (cs : List Char) : (takeSign cs).2.length ≤ cs.length := by
  unfold takeSign
  split <;> simp

theorem length_takeExponent_le (cs : List Char) : (takeExponent cs).2.length ≤ cs.length := by
  cases cs with
  | nil => exact Nat.le_refl _
  | cons e rest =>
    simp only [takeExponent, List.length_cons]
    split
    · exact Nat.le_succ_of_le
        (Nat.le_trans (length_dropWhile_le _ _) (length_takeSign_le rest))
    · exact Nat.le_refl _

/-- What is behind a token is no longer than what was behind its first
character. -/
theorem tokenAt_length {c : Char} {rest after : List Char} {t : Token Float}
    (h : tokenAt c rest = .ok (t, after)) : after.length ≤ rest.length := by
  unfold tokenAt at h
  split at h
  case h_14 =>
    split at h
    · have hle := Nat.le_trans (length_takeExponent_le (rest.dropWhile isNumeral))
        (length_dropWhile_le isNumeral rest)
      simp only at h
      split at h
      · simp only [Except.ok.injEq, Prod.mk.injEq] at h
        exact h.2 ▸ hle
      · cases h
    · split at h
      · simp only [Except.ok.injEq, Prod.mk.injEq] at h
        exact h.2 ▸ length_dropWhile_le _ _
      · cases h
  all_goals
    simp only [Except.ok.injEq, Prod.mk.injEq] at h
    simp [← h.2]

/-- The tokens of a text. -/
def tokenize : List Char → Except TokenError (List (Token Float))
  | [] => .ok []
  | c :: rest =>
    if Text.isBlank c then tokenize rest
    else
      match h : tokenAt c rest with
      | .ok (t, after) =>
        have : after.length ≤ rest.length := tokenAt_length h
        (tokenize after).map (t :: ·)
      | .error e => .error e
termination_by cs => cs.length
decreasing_by all_goals simp only [List.length_cons]; omega

end LinearProgram.LpText
