import LinearProgram.Decimal.Binary64

/-!
# `LinearProgram.Decimal.Basic`: decimal numbers and the doubles they mean

A `Decimal` is a run of digits and the power of ten of its last place.
`Decimal.nearestCode` is the double it stands for: the one nearest to
its exact value, halves to the even mantissa. Text is read through this
function and printed by searching for the decimals it takes back to the
number at hand, so reading and printing cannot disagree.
-/

set_option autoImplicit false

namespace LinearProgram

/-- The number `digits * 10 ^ power`. -/
structure Decimal where
  digits : Nat
  power : Int
deriving DecidableEq, Repr

namespace Decimal

/-- Ten to a power; one, if the power is negative. -/
def tenTo (power : Int) : Nat := Nat.pow 10 power.toNat

/-- Whether a positive value lies beyond every finite double for its
power of ten alone. -/
def isHuge (d : Decimal) : Bool := 400 < d.power

/-- Whether the value lies below half the least double: the digits are
below `2 ^ (log2 digits + 1)` and a tenth is below an eighth. -/
def isTiny (d : Decimal) : Bool := (d.digits.log2 : Int) + 1 + 3 * d.power < -1080

/-- The code of the double nearest to the value. The two bounds decide
extreme powers of ten without computing them. -/
def nearestCode (d : Decimal) : Nat :=
  if d.digits = 0 || d.isTiny then 0
  else if d.isHuge then Binary64.infinityCode
  else Binary64.nearestCode (d.digits * tenTo d.power) (tenTo (-d.power))

/-- The double nearest to the value, with a sign. -/
def toFloat (negative : Bool) (d : Decimal) : Float := Binary64.ofCode negative d.nearestCode

end Decimal

end LinearProgram
