import LinearProgram.Decimal.Basic

/-!
# `LinearProgram.Decimal.Shortest`: the fewest digits that read back

A double is written with as few digits as identify it, and of several
such decimals the nearest one, the larger of two equally near ones.

The decimals that read back to a code are those in an interval around
its magnitude. If a multiple of `10 ^ p` lies in the interval, so does
one of the two multiples that enclose the magnitude, and a multiple of
a larger power of ten needs fewer digits; so `shortest` walks the powers
downwards, tries the two neighbours and takes the first hit. Every hit
has been read back, and where the walk ends without one stands the exact
expansion, which reads back too.
-/

set_option autoImplicit false

namespace LinearProgram.Decimal

/-- Whether `d` is read as the number with this code. -/
def readsAs (code : Nat) (d : Decimal) : Bool := d.nearestCode == code

/-- The exact decimal expansion of the magnitude of a finite code:
dividing by two is multiplying by five and dividing by ten. -/
def expansion (code : Nat) : Decimal :=
  let e := Binary64.exponent code
  ⟨Binary64.numerator code * Nat.pow 5 (-e).toNat, min e 0⟩

/-- Of the two multiples of `10 ^ p` that enclose the magnitude, the
one that reads back; of two the nearer, at equal distance the larger. -/
def neighbour? (code : Nat) (p : Int) : Option Decimal :=
  let num := Binary64.numerator code * tenTo (-p)
  let den := Binary64.denominator code * tenTo p
  let below : Decimal := ⟨num / den, p⟩
  let above : Decimal := ⟨num / den + 1, p⟩
  match below.readsAs code, above.readsAs code with
  | true, true => some (if 2 * (num % den) < den then below else above)
  | true, false => some below
  | false, true => some above
  | false, false => none

/-- The first hit among `10 ^ p`, `10 ^ (p - 1)`, … within `steps`
powers, else the exact expansion. -/
def search (code : Nat) (p : Int) : Nat → Decimal
  | 0 => expansion code
  | steps + 1 =>
    match neighbour? code p with
    | some d => d
    | none => search code (p - 1) steps

/-- A power of ten above twice the magnitude, from the binary logarithm
and `log10 2 < 0.30103`. -/
def topPower (code : Nat) : Int :=
  let bits := (Binary64.numerator code).log2 - (Binary64.denominator code).log2 + (2 : Int)
  (bits * 30103).fdiv 100000 + 1

/-- The shortest decimal that reads back to a finite positive code. -/
def shortest (code : Nat) : Decimal :=
  let top := topPower code
  search code top (top - min (Binary64.exponent code) 0).toNat

end LinearProgram.Decimal
