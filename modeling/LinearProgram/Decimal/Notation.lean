import LinearProgram.Decimal.Shortest

/-!
# `LinearProgram.Decimal.Notation`: how numbers are written

Three notations, all with a leading `-` for a set sign bit, negative
zero included, and with `inf` and `NaN` for what is not finite.

* `plain`: the shortest digits, positional at every magnitude, without
  a fraction where there is none. Models, solutions and messages use it.
* `marked`: the same digits, marked as a number by a point or an
  exponent; the form in which a reading error quotes a number.
* `fixed`: a given number of decimal places, for durations.
-/

set_option autoImplicit false

namespace LinearProgram.Decimal

/-- The digits of a natural number. -/
def digitsOf (n : Nat) : List Char := Nat.toDigits 10 n

/-- Puts a point before the last `places` digits, with zeros in front
so that a digit precedes it. -/
def pointed (places : Nat) (digits : List Char) : List Char :=
  let padded := List.replicate (places + 1 - digits.length) '0' ++ digits
  let whole := padded.length - places
  padded.take whole ++ '.' :: padded.drop whole

/-- Positional notation, without a fraction where the value is whole by
its power of ten. -/
def positional (d : Decimal) : List Char :=
  if 0 ≤ d.power then digitsOf d.digits ++ List.replicate d.power.toNat '0'
  else pointed (-d.power).toNat (digitsOf d.digits)

/-- The power of ten of the leading digit. -/
def leadingPower (d : Decimal) : Int := (digitsOf d.digits).length - 1 + d.power

/-- One digit, the others behind a point, and the power of ten. -/
def scientific (d : Decimal) : List Char :=
  let mantissa := match digitsOf d.digits with
    | first :: second :: rest => first :: '.' :: second :: rest
    | digits => digits
  mantissa ++ 'e' :: (toString d.leadingPower).toList

/-- A decimal that is visibly one: at least one fractional digit, or an
exponent from `10 ^ 16` upwards and below `10 ^ -4`. -/
def markedMagnitude (d : Decimal) : List Char :=
  if 16 ≤ d.leadingPower || d.leadingPower < -4 then scientific d
  else if 0 ≤ d.power then positional d ++ ['.', '0']
  else positional d

/-- Writes the sign and what is not finite, and hands the code of
everything else to `magnitude`. -/
def signed (magnitude : Nat → List Char) (x : Float) : String :=
  let code := Binary64.code x
  if Binary64.infinityCode < code then "NaN"
  else
    let unsigned := if code = Binary64.infinityCode then "inf".toList else magnitude code
    String.ofList (if Binary64.isNegative x then '-' :: unsigned else unsigned)

/-- The shortest positional text: `3`, `0.1`, `-0`, `inf`. -/
def plain (x : Float) : String :=
  signed (fun code => if code = 0 then ['0'] else positional (shortest code)) x

/-- The shortest text that shows it is a number: `3.0`, `1e16`, `-0.0`. -/
def marked (x : Float) : String :=
  signed (fun code => if code = 0 then "0.0".toList else markedMagnitude (shortest code)) x

/-- The value rounded to `places` decimal places, halves to even. -/
def fixed (places : Nat) (x : Float) : String :=
  signed (fun code => pointed places (digitsOf (Binary64.roundHalfEven
    (Binary64.numerator code * tenTo places) (Binary64.denominator code)))) x

end LinearProgram.Decimal
