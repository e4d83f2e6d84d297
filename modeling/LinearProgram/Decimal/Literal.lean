import LinearProgram.Decimal.Basic

/-!
# `LinearProgram.Decimal.Literal`: reading a number

A literal is an optional sign and either digits with an optional point
among or around them and an optional exponent, or one of the words
`inf`, `infinity` and `nan` in any case. Nothing else may surround it.

* `magnitude?` reads the part after the sign.
* `read` is the whole, telling an empty text from a malformed one.
-/

set_option autoImplicit false

namespace LinearProgram.Decimal

/-- Why a text is not a number. -/
inductive LiteralError where
  | empty
  | malformed
deriving DecidableEq, Repr

/-- The wording of a rejected literal. -/
def LiteralError.message : LiteralError → String
  | .empty => "cannot parse float from empty string"
  | .malformed => "invalid float literal"

/-- The number that a run of digits spells. -/
def digitsValue (cs : List Char) : Nat := cs.foldl (fun n c => 10 * n + (c.toNat - '0'.toNat)) 0

/-- A literal with a leading sign taken off, and whether it was `-`. -/
def splitSign : List Char → Bool × List Char
  | '-' :: rest => (true, rest)
  | '+' :: rest => (false, rest)
  | cs => (false, cs)

/-- An exponent part that fills the rest of the literal; no rest at all
is the exponent zero. -/
def exponent? : List Char → Option Int
  | [] => some 0
  | c :: rest =>
    let (negative, digits) := splitSign rest
    if (c == 'e' || c == 'E') && !digits.isEmpty && digits.all Char.isDigit then
      some (if negative then -(digitsValue digits : Int) else digitsValue digits)
    else none

/-- Digits with an optional point and exponent, one digit at least. -/
def decimal? (cs : List Char) : Option Decimal :=
  let whole := cs.takeWhile Char.isDigit
  let (fraction, rest) := match cs.dropWhile Char.isDigit with
    | '.' :: rest => (rest.takeWhile Char.isDigit, rest.dropWhile Char.isDigit)
    | rest => ([], rest)
  if whole.isEmpty && fraction.isEmpty then none
  else (exponent? rest).map fun e => ⟨digitsValue (whole ++ fraction), e - fraction.length⟩

/-- An unsigned literal: a decimal, or a word for what is not finite. -/
def magnitude? (negative : Bool) (cs : List Char) : Option Float :=
  match decimal? cs with
  | some d => some (d.toFloat negative)
  | none =>
    let word := String.ofList (cs.map Char.toLower)
    if word == "inf" || word == "infinity" then
      some (Binary64.ofCode negative Binary64.infinityCode)
    else if word == "nan" then some (0.0 / 0.0)
    else none

/-- The number a text spells. -/
def read (cs : List Char) : Except LiteralError Float :=
  if cs.isEmpty then .error .empty
  else
    let (negative, rest) := splitSign cs
    match magnitude? negative rest with
    | some x => .ok x
    | none => .error .malformed

end LinearProgram.Decimal
