import LinearProgram.Decimal.Literal
import LinearProgram.Toml.Value

/-!
# `LinearProgram.Toml.Text`: the words of a TOML document

Keys, strings, numbers, dates and times, and the blanks and comments
between them. A reader takes a text and gives what stands at its front
together with the rest, or nothing if the text is malformed.
-/

set_option autoImplicit false

namespace LinearProgram.Toml

/-- Reads something at the front of a text. -/
abbrev Reader (α : Type) := List Char → Option (α × List Char)

/-- Space and tab. -/
def isSpace (c : Char) : Bool := c == ' ' || c == '\t'

/-- A character that can stand in a comment or a string: a tab, or
anything that is no control character. -/
def isPrintable (c : Char) : Bool := c == '\t' || (0x20 ≤ c.toNat && c.toNat ≠ 0x7f)

/-- The text without spaces at its front. -/
def skipSpaces (cs : List Char) : List Char := cs.dropWhile isSpace

/-- The text behind a line feed, with or without a carriage return. -/
def newline? : List Char → Option (List Char)
  | '\n' :: rest => some rest
  | '\r' :: '\n' :: rest => some rest
  | _ => none

/-- The text behind the end of a line. Spaces and a comment may stand
before it, and the text may end instead. -/
def endOfLine? (cs : List Char) : Option (List Char) :=
  let cs := match skipSpaces cs with
    | '#' :: comment => comment.dropWhile isPrintable
    | cs => cs
  match cs with
  | [] => some []
  | cs => newline? cs

/-- The text without spaces, comments and line ends at its front. -/
def skipLines (inComment : Bool) : List Char → List Char
  | [] => []
  | '\n' :: rest => skipLines false rest
  | '\r' :: '\n' :: rest => skipLines false rest
  | c :: rest =>
    if inComment then
      if isPrintable c then skipLines true rest else c :: rest
    else if isSpace c then skipLines false rest
    else if c = '#' then skipLines true rest
    else c :: rest

/-! ### Strings -/

/-- The value of a hexadecimal digit. -/
def hexValue? (c : Char) : Option Nat :=
  if c.isDigit then some (c.toNat - '0'.toNat)
  else if 'a' ≤ c ∧ c ≤ 'f' then some (c.toNat - 'a'.toNat + 10)
  else if 'A' ≤ c ∧ c ≤ 'F' then some (c.toNat - 'A'.toNat + 10)
  else none

/-- The character with a code in hexadecimal digits. Codes of surrogates
and beyond the last character stand for none. -/
def charOfHex? (digits : List Char) : Option Char := do
  let values ← digits.mapM hexValue?
  let code := values.foldl (fun n d => 16 * n + d) 0
  if code.isValidChar then some (Char.ofNat code) else none

/-- The character for which a letter behind a backslash stands. -/
def escape? : Char → Option Char
  | 'b' => some '\x08'
  | 't' => some '\t'
  | 'n' => some '\n'
  | 'f' => some '\x0c'
  | 'r' => some '\r'
  | '"' => some '"'
  | '\\' => some '\\'
  | _ => none

/-- Puts a character in front of what a reader gives. -/
def prepend (c : Char) (result : Option (List Char × List Char)) :
    Option (List Char × List Char) := result.map fun r => (c :: r.1, r.2)

/-- A string on one line, behind its opening double quote. -/
def basicBody : Reader (List Char)
  | [] => none
  | '"' :: rest => some ([], rest)
  | '\\' :: 'u' :: a :: b :: c :: d :: rest =>
    (charOfHex? [a, b, c, d]).bind fun x => prepend x (basicBody rest)
  | '\\' :: 'U' :: a :: b :: c :: d :: e :: f :: g :: h :: rest =>
    (charOfHex? [a, b, c, d, e, f, g, h]).bind fun x => prepend x (basicBody rest)
  | '\\' :: c :: rest => (escape? c).bind fun x => prepend x (basicBody rest)
  | c :: rest => if isPrintable c then prepend c (basicBody rest) else none

/-- Whether nothing but spaces is left on a line that does not end the text. -/
def isLineEnd (cs : List Char) : Bool := (newline? (skipSpaces cs)).isSome

/-- A string over several lines, behind its opening quotes. After a
backslash at the end of a line blanks are `skipped` up to the next
character. Up to two quotes can stand before the closing ones. -/
def longBasicBody (skipped : Bool) : Reader (List Char)
  | '"' :: '"' :: '"' :: '"' :: '"' :: rest => some (['"', '"'], rest)
  | '"' :: '"' :: '"' :: '"' :: rest => some (['"'], rest)
  | '"' :: '"' :: '"' :: rest => some ([], rest)
  | '\\' :: 'u' :: a :: b :: c :: d :: rest =>
    (charOfHex? [a, b, c, d]).bind fun x => prepend x (longBasicBody false rest)
  | '\\' :: 'U' :: a :: b :: c :: d :: e :: f :: g :: h :: rest =>
    (charOfHex? [a, b, c, d, e, f, g, h]).bind fun x => prepend x (longBasicBody false rest)
  | '\\' :: c :: rest =>
    if isLineEnd (c :: rest) then longBasicBody true (c :: rest)
    else (escape? c).bind fun x => prepend x (longBasicBody false rest)
  | '\r' :: '\n' :: rest =>
    if skipped then longBasicBody true rest else prepend '\n' (longBasicBody false rest)
  | '\n' :: rest =>
    if skipped then longBasicBody true rest else prepend '\n' (longBasicBody false rest)
  | c :: rest =>
    if skipped && isSpace c then longBasicBody true rest
    else if isPrintable c then prepend c (longBasicBody false rest)
    else none
  | [] => none

/-- A string without escapes on one line, behind its opening quote. -/
def literalBody : Reader (List Char)
  | [] => none
  | c :: rest =>
    if c = '\x27' then some ([], rest)
    else if isPrintable c then prepend c (literalBody rest)
    else none

/-- A string without escapes over several lines, behind its opening quotes. -/
def longLiteralBody : Reader (List Char)
  | '\x27' :: '\x27' :: '\x27' :: '\x27' :: '\x27' :: rest => some (['\x27', '\x27'], rest)
  | '\x27' :: '\x27' :: '\x27' :: '\x27' :: rest => some (['\x27'], rest)
  | '\x27' :: '\x27' :: '\x27' :: rest => some ([], rest)
  | '\r' :: '\n' :: rest => prepend '\n' (longLiteralBody rest)
  | '\n' :: rest => prepend '\n' (longLiteralBody rest)
  | c :: rest => if isPrintable c then prepend c (longLiteralBody rest) else none
  | [] => none

/-- The text without a line end at its front. -/
def dropNewline (cs : List Char) : List Char := (newline? cs).getD cs

/-- A string of any of the four kinds. -/
def string : Reader (List Char)
  | '"' :: '"' :: '"' :: rest => longBasicBody false (dropNewline rest)
  | '"' :: rest => basicBody rest
  | '\x27' :: '\x27' :: '\x27' :: rest => longLiteralBody (dropNewline rest)
  | '\x27' :: rest => literalBody rest
  | _ => none

/-! ### Keys -/

/-- A character of a key without quotes. -/
def isBare (c : Char) : Bool := c.isAlphanum || c == '-' || c == '_'

/-- A part of a key: bare, or a string on one line. -/
def keyPart : Reader String
  | '"' :: rest => (basicBody rest).map fun r => (String.ofList r.1, r.2)
  | '\x27' :: rest => (literalBody rest).map fun r => (String.ofList r.1, r.2)
  | cs =>
    if (cs.takeWhile isBare).isEmpty then none
    else some (String.ofList (cs.takeWhile isBare), cs.dropWhile isBare)

/-- Tables and arrays may be nested this deep, and a key may have this
many parts. -/
def nestingLimit : Nat := 79

/-- A key: parts with points between them, spaces anywhere between.
`most` is how many parts there may be. -/
def keyParts : (most : Nat) → Reader (List String)
  | 0, _ => none
  | most + 1, cs => do
    let (part, rest) ← keyPart (skipSpaces cs)
    match skipSpaces rest with
    | '.' :: rest => do
      let (others, rest) ← keyParts most rest
      some (part :: others, rest)
    | rest => some ([part], rest)

/-- A key, as the parts before the last one and the last one. -/
def key : Reader (List String × String) := fun cs => do
  let (parts, rest) ← keyParts nestingLimit cs
  let last ← parts.getLast?
  some ((parts.dropLast, last), rest)

/-! ### Numbers -/

/-- The digits of a number behind its first one. An underscore can stand
between two digits. -/
def moreDigits (isDigit : Char → Bool) : Reader (List Char)
  | '_' :: d :: rest => if isDigit d then prepend d (moreDigits isDigit rest) else none
  | ['_'] => none
  | d :: rest => if isDigit d then prepend d (moreDigits isDigit rest) else some ([], d :: rest)
  | [] => some ([], [])

/-- At least one digit. -/
def digits (isDigit : Char → Bool) : Reader (List Char)
  | d :: rest => if isDigit d then prepend d (moreDigits isDigit rest) else none
  | [] => none

/-- The digits of a decimal number; a zero stands alone. -/
def decimalDigits : Reader (List Char)
  | '0' :: rest => some (['0'], rest)
  | cs => digits Char.isDigit cs

/-- A sign, if there is one. -/
def sign : List Char → List Char × List Char
  | '+' :: rest => (['+'], rest)
  | '-' :: rest => (['-'], rest)
  | cs => ([], cs)

/-- An exponent, if there is one. -/
def exponentPart : Reader (List Char)
  | e :: rest =>
    if e = 'e' ∨ e = 'E' then
      (digits Char.isDigit (sign rest).2).map fun r => ('e' :: (sign rest).1 ++ r.1, r.2)
    else some ([], e :: rest)
  | [] => some ([], [])

/-- What follows the whole part of a number with a fraction or an
exponent; nothing if it has neither. -/
def fractionPart : Reader (List Char)
  | '.' :: rest => do
    let (fraction, rest) ← digits Char.isDigit rest
    let (exponent, rest) ← exponentPart rest
    some ('.' :: fraction ++ exponent, rest)
  | cs => exponentPart cs

/-- The number of an integer, if 64 bits can hold it. -/
def integer? (value : Int) : Option Value :=
  if -0x8000000000000000 ≤ value ∧ value < 0x8000000000000000 then some (.integer value) else none

/-- The number of a literal, unless it lies above all doubles. -/
def float? (literal : List Char) : Option Value :=
  match Decimal.read literal with
  | .ok x => if x == Binary64.infinity then none else some (.float x)
  | .error _ => none

/-- The digits of an integer in another base. -/
def radixInteger (base : Nat) (cs : List Char) : Option (Value × List Char) := do
  let isDigit (c : Char) : Bool := ((hexValue? c).map fun d => decide (d < base)).getD false
  let (run, rest) ← digits isDigit cs
  let value := run.foldl (fun n c => base * n + (hexValue? c).getD 0) 0
  let v ← integer? value
  some (v, rest)

/-- A decimal number behind its sign, which is `negative` or not. -/
def decimalNumber (signText : List Char) (cs : List Char) : Option (Value × List Char) := do
  let (whole, rest) ← decimalDigits cs
  let (more, rest) ← fractionPart rest
  let v ←
    if more.isEmpty then
      let n : Int := Decimal.digitsValue whole
      integer? (if signText = ['-'] then -n else n)
    else float? (signText ++ whole ++ more)
  some (v, rest)

/-- A number that is not finite, behind its sign. -/
def specialNumber (signText : List Char) : List Char → Option (Value × List Char)
  | 'i' :: 'n' :: 'f' :: rest =>
    some (.float (if signText = ['-'] then -Binary64.infinity else Binary64.infinity), rest)
  | 'n' :: 'a' :: 'n' :: rest => some (.float (0.0 / 0.0), rest)
  | _ => none

/-- A number. -/
def number : Reader Value
  | '0' :: 'x' :: rest => radixInteger 16 rest
  | '0' :: 'o' :: rest => radixInteger 8 rest
  | '0' :: 'b' :: rest => radixInteger 2 rest
  | cs =>
    match specialNumber (sign cs).1 (sign cs).2 with
    | some result => some result
    | none => decimalNumber (sign cs).1 (sign cs).2

/-! ### Dates and times -/

/-- Two digits between bounds, and their value. -/
def twoDigits (low high : Nat) : Reader Nat
  | a :: b :: rest =>
    let n := Decimal.digitsValue [a, b]
    if a.isDigit && b.isDigit && low ≤ n && n ≤ high then some (n, rest) else none
  | _ => none

/-- A character that must be there. -/
def expect (c : Char) : List Char → Option (List Char)
  | d :: rest => if d = c then some rest else none
  | [] => none

/-- How many days a month has. -/
def daysOf (year month : Nat) : Nat :=
  if month = 2 then
    if year % 4 = 0 ∧ (year % 100 ≠ 0 ∨ year % 400 = 0) then 29 else 28
  else if [4, 6, 9, 11].contains month then 30
  else 31

/-- A time of day: hours, minutes, seconds, and a fraction if it has digits. -/
def time (cs : List Char) : Option (List Char) := do
  let (_, rest) ← twoDigits 0 23 cs
  let (_, rest) ← twoDigits 0 59 (← expect ':' rest)
  let (_, rest) ← twoDigits 0 60 (← expect ':' rest)
  match rest with
  | '.' :: d :: others => if d.isDigit then some (others.dropWhile Char.isDigit) else some rest
  | _ => some rest

/-- A distance to universal time, if there is one. -/
def offset (cs : List Char) : Option (List Char) :=
  match cs with
  | 'Z' :: rest => some rest
  | 'z' :: rest => some rest
  | _ =>
    if (sign cs).1.isEmpty then some cs
    else do
      let (_, rest) ← twoDigits 0 23 (sign cs).2
      let (_, rest) ← twoDigits 0 59 (← expect ':' rest)
      some rest

/-- Whether a text begins with two digits and a colon. -/
def startsTime : List Char → Bool
  | a :: b :: c :: _ => a.isDigit && b.isDigit && c == ':'
  | _ => false

/-- A time and a distance to universal time, if a time follows a date. -/
def timeBehindDate (cs : List Char) : Option (List Char) :=
  match cs with
  | c :: rest =>
    if (c = 'T' ∨ c = 't' ∨ c = ' ') ∧ startsTime rest then (time rest).bind offset
    else some cs
  | [] => some []

/-- A date, with a time or without. -/
def date (cs : List Char) : Option (List Char) := do
  let year := Decimal.digitsValue (cs.take 4)
  let (month, rest) ← twoDigits 1 12 (cs.drop 5)
  let (_, rest) ← twoDigits 1 (daysOf year month) (← expect '-' rest)
  timeBehindDate rest

/-- Whether a text begins with a year and a hyphen. -/
def startsDate : List Char → Bool
  | a :: b :: c :: d :: e :: _ => [a, b, c, d].all Char.isDigit && e == '-'
  | _ => false

/-- A number, a date or a time. -/
def numeral (cs : List Char) : Option (Value × List Char) :=
  if startsDate cs then (date cs).map fun rest => (.moment, rest)
  else if startsTime cs then (time cs).map fun rest => (.moment, rest)
  else number cs

end LinearProgram.Toml
