import LinearProgram.LpText.Symbols
import LinearProgram.Term

/-!
# `LinearProgram.LpText.Expression`: reading linear expressions

An expression is a sequence of monomials with signs in front of them. A
monomial is a product of numbers and of at most one name, with or
without stars between the factors. Any number of signs can stand before
a monomial, and before the first one there need not be any.

* `summands` cuts tokens at the signs.
* `monomial` reads one product, `expression` the sum.
-/

set_option autoImplicit false

namespace LinearProgram.LpText

variable {K : Type} [Scalar K]

/-- Tokens cut into monomials, each with whether its signs make it
negative. The accumulated monomial comes first; a sign behind it ends
it, and a sign with nothing before it adds to the signs. -/
def summands (negative : Bool) (monomial : List (Token K)) :
    List (Token K) → List (Bool × List (Token K))
  | [] => [(negative, monomial)]
  | .plus :: rest =>
    if monomial.isEmpty then summands negative [] rest
    else (negative, monomial) :: summands false [] rest
  | .minus :: rest =>
    if monomial.isEmpty then summands (!negative) [] rest
    else (negative, monomial) :: summands true [] rest
  | t :: rest => summands negative (monomial ++ [t]) rest

/-- A product as a term. -/
def product (coefficient : K) : Option Variable → Term K
  | some v => .weighted v coefficient
  | none => .ofConstant coefficient

/-- Reads further factors of a product. `open` products end with a star
or have no factor yet. -/
def factors (coefficient : K) (v : Option Variable) (isOpen : Bool) :
    List (Token K) → Reading K (Term K)
  | [] => if isOpen then throw .incompleteExpression else pure (product coefficient v)
  | .number value :: rest => factors (coefficient * value) v false rest
  | .name name :: rest =>
    match v with
    | some _ => throw (.twoVariables name)
    | none => do
      let w ← mention name
      factors coefficient (some w) false rest
  | .star :: rest =>
    if isOpen then throw (.unexpected .star) else factors coefficient v true rest
  | t :: _ => throw (.unexpected t)

/-- Reads a product. -/
def monomial (tokens : List (Token K)) : Reading K (Term K) := factors 1 none true tokens

/-- Reads products and adds them to a term, each with its sign. -/
def addSummands (term : Term K) : List (Bool × List (Token K)) → Reading K (Term K)
  | [] => pure term
  | (negative, tokens) :: rest => do
    let t ← monomial tokens
    addSummands (term + t.scale (if negative then -1 else 1)) rest

/-- Reads an expression. -/
def expression (tokens : List (Token K)) : Reading K (Term K) :=
  if tokens.isEmpty then throw .emptyExpression else addSummands 0 (summands false [] tokens)

end LinearProgram.LpText
