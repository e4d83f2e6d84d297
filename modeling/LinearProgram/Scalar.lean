/-!
# `LinearProgram.Scalar`: the numbers that terms are made of

Terms and constraints are written once for every type of numbers with
the operations of this class. The program works with doubles; over an
exact ring the same definitions are ordinary linear algebra, which is
what their laws are stated about.
-/

set_option autoImplicit false

namespace LinearProgram

/-- Numbers with arithmetic and a test for equality. The test need not
be reflexive: a double that is not a number differs from itself. -/
class Scalar (K : Type) extends Zero K, One K, Add K, Sub K, Neg K, Mul K, BEq K

/-- Doubles, with the arithmetic and the comparison of IEEE 754. -/
instance : Scalar Float where
  zero := 0
  one := 1

end LinearProgram
