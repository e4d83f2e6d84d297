/-!
# `LinearProgram.Decimal.Binary64`: doubles as codes, mantissas and exponents

The numbers of a model are doubles. What their text looks like, whether
they are whole, and which of them a decimal means are questions about
exact rationals, and this module is the bridge: a double is a sign and
a *code*, its remaining 63 bits, and the codes ascend with the
magnitudes they stand for.

* `code`, `isNegative` and `ofCode` take a double apart and put it
  together.
* `mantissa` and `exponent` give the exact magnitude of a finite code
  as `mantissa * 2 ^ exponent`.
* `nearestCode` rounds a ratio of natural numbers to the nearest code,
  halves to the even mantissa; ratios past the largest finite double
  give `infinityCode`.
* `isWhole` and `roundHalfAway` are read off the exact magnitude.
-/

set_option autoImplicit false

namespace LinearProgram.Binary64

/-- The code of the least normal number, `2 ^ 52`. Smaller codes are
subnormal, and there are as many codes for every exponent. -/
def leastNormal : Nat := 0x10000000000000

/-- The sign among the 64 bits of a double, `2 ^ 63`. -/
def signBit : Nat := 0x8000000000000000

/-- The code of infinity. Finite magnitudes have smaller codes, and
larger ones mean not a number. -/
def infinityCode : Nat := 2047 * leastNormal

/-- The bits of `x` without its sign. -/
def code (x : Float) : Nat := x.toBits.toNat % signBit

/-- Whether the sign bit of `x` is set; negative zero has it too. -/
def isNegative (x : Float) : Bool := signBit ≤ x.toBits.toNat

/-- The double with a given sign and code. -/
def ofCode (negative : Bool) (code : Nat) : Float :=
  Float.ofBits (UInt64.ofNat (if negative then code + signBit else code))

/-- Positive infinity. -/
def infinity : Float := ofCode false infinityCode

/-- The magnitude of a finite code is `mantissa * 2 ^ exponent`: normal
numbers have an implicit leading bit, subnormal ones have none. -/
def mantissa (code : Nat) : Nat :=
  if code / leastNormal = 0 then code else code % leastNormal + leastNormal

/-- The magnitude of a finite code is `mantissa * 2 ^ exponent`:
subnormal numbers share the exponent of the least normal ones. -/
def exponent (code : Nat) : Int := (max (code / leastNormal) 1 : Nat) - 1075

/-- Numerator of the magnitude of a finite code. -/
def numerator (code : Nat) : Nat := mantissa code <<< (exponent code).toNat

/-- Denominator of the magnitude of a finite code, a power of two. -/
def denominator (code : Nat) : Nat := 1 <<< (-exponent code).toNat

/-- The whole number nearest to `num / den`, of two the even one. -/
def roundHalfEven (num den : Nat) : Nat :=
  if 2 * (num % den) < den then num / den
  else if den < 2 * (num % den) then num / den + 1
  else num / den + num / den % 2

/-- The code nearest to `num / den`.

With `k` the difference of the two binary logarithms the ratio lies
strictly between `2 ^ (k - 1)` and `2 ^ (k + 1)`, so scaled down by
`2 ^ (k - 53)` it has 53 or 54 bits, and one step decides which. Below
the normal range the exponent stays at its minimum. Laying the rounded
mantissa over the exponent field carries into the next exponent when
rounding overflows the mantissa, which is the right code then. -/
def nearestCode (num den : Nat) : Nat :=
  if num = 0 then 0
  else
    let low := max (-1074) ((num.log2 : Int) - den.log2 - 53)
    let long := 2 * leastNormal ≤ (num <<< (-low).toNat) / (den <<< low.toNat)
    let e := if long then low + 1 else low
    let m := roundHalfEven (num <<< (-e).toNat) (den <<< e.toNat)
    min infinityCode ((e + 1074).toNat * leastNormal + m)

/-- Whether a finite `x` is a whole number. -/
def isWhole (x : Float) : Bool := numerator (code x) % denominator (code x) == 0

/-- The nearest whole number, halves away from zero; the sign stays,
that of a zero result included. -/
def roundHalfAway (x : Float) : Float :=
  if infinityCode ≤ code x || isWhole x then x
  else
    let d := denominator (code x)
    ofCode (isNegative x) (nearestCode ((2 * numerator (code x) + d) / (2 * d)) 1)

end LinearProgram.Binary64
