import LinearProgram.Term

/-!
# `LinearProgram.Operand`: what the operators accept

An operator takes numbers, variables and terms in any mixture, and its
result is a term. Which terms it adds depends on the mixture: `c - t`
is `-t + c`, a negated variable is the variable weighted by minus one,
and a number that is negated or meets a number counts as a constant
term.
-/

set_option autoImplicit false

namespace LinearProgram

/-- One side of an operator. -/
inductive Operand (K : Type) [Scalar K] where
  | number (c : K)
  | single (v : Variable)
  | term (t : Term K)

namespace Operand

variable {K : Type} [Scalar K]

/-- An operand as a term. -/
def toTerm : Operand K → Term K
  | number c => .ofConstant c
  | single v => .ofVariable v
  | term t => t

/-- The sum. A number goes behind what it is added to. -/
def add : Operand K → Operand K → Term K
  | number c, number d => .ofConstant c + .ofConstant d
  | number c, b => b.toTerm + .ofConstant c
  | a, b => a.toTerm + b.toTerm

/-- The opposite. A variable gets the coefficient minus one, all else is
scaled by it as a term. -/
def neg : Operand K → Term K
  | single v => .weighted v (-1)
  | a => -a.toTerm

/-- The difference. What is taken from a number is negated first, and
the number goes behind it. -/
def sub : Operand K → Operand K → Term K
  | number c, number d => .ofConstant c - .ofConstant d
  | number c, b => b.neg + .ofConstant c
  | a, b => a.toTerm - b.toTerm

/-- The multiple by a number. -/
def scale : Operand K → K → Term K
  | single v, factor => .weighted v factor
  | a, factor => a.toTerm.scale factor

/-- The product, if one side is a number. -/
def mul? : Operand K → Operand K → Option (Term K)
  | a, number d => some (a.scale d)
  | number c, b => some (b.scale c)
  | _, _ => none

end Operand

end LinearProgram
