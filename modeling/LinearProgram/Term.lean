import LinearProgram.Scalar
import LinearProgram.VariableSet

/-!
# `LinearProgram.Term`: linear terms

A term is a sum of variables with coefficients and of a constant. It
stores no coefficient that is zero, so it is constant exactly when it
stores none. This holds by the type: every operation drops the
coefficients it turns into zeros.

* `coefficient` and `constant` are the view. `get?_addTerm`,
  `get?_setCoefficient` and `get?_scale` say what the operations do to
  it.
* `+` and `-` take the summands of the second term into the first one
  after another, in the order of creation: first the constant, then
  each variable, multiplied by a sign. `-t` is `t` scaled by minus one.
* `evaluate` is the value of a term.
* `Term.text` writes a term, summands in the order of names.
-/

set_option autoImplicit false

namespace LinearProgram

/-- Numbers for variables. -/
abbrev Valuation (K : Type) := OrderedMap Variable K

/-- A sum of variables with coefficients other than zero, and a constant. -/
structure Term (K : Type) [Scalar K] where
  coefficients : OrderedMap Variable K
  constant : K
  nonzero : ∀ v c, coefficients.get? v = some c → (c == 0) = false

namespace Term

variable {K : Type} [Scalar K]

/-- A coefficient to be stored: none if it is zero. -/
def keep (c : K) : Option K := if c == 0 then none else some c

theorem keep_eq_some {c d : K} : keep c = some d ↔ (c == 0) = false ∧ c = d := by
  unfold keep
  split <;> simp_all

theorem keep_of_nonzero {c : K} (h : (c == 0) = false) : keep c = some c := by simp [keep, h]

/-! ### Terms without a sum -/

/-- The term that is a number. -/
def ofConstant (constant : K) : Term K := ⟨∅, constant, fun _ _ h => by simp at h⟩

instance : Zero (Term K) := ⟨ofConstant 0⟩
instance : Inhabited (Term K) := ⟨0⟩

/-- Two terms are compared coefficient by coefficient, as numbers are. -/
instance : BEq (Term K) where
  beq s t := s.coefficients == t.coefficients && s.constant == t.constant

/-! ### Changing a term -/

/-- Changes one coefficient, given as nothing where it is zero. -/
def alter (t : Term K) (v : Variable) (f : Option K → K) : Term K where
  coefficients := t.coefficients.alter v fun c => keep (f c)
  constant := t.constant
  nonzero w c h := by
    rw [OrderedMap.get?_alter] at h
    split at h
    · obtain ⟨hc, rfl⟩ := keep_eq_some.mp h
      exact hc
    · exact t.nonzero w c h

/-- Adds a summand. One with coefficient zero changes nothing. -/
def addTerm (t : Term K) (v : Variable) (coefficient : K) : Term K :=
  if coefficient == 0 then t
  else t.alter v fun
    | some c => c + coefficient
    | none => coefficient

/-- Replaces a coefficient; zero takes the variable out. -/
def setCoefficient (t : Term K) (v : Variable) (coefficient : K) : Term K :=
  t.alter v fun _ => coefficient

/-- Replaces the constant. -/
def setConstant (t : Term K) (constant : K) : Term K := { t with constant }

/-- Adds to the constant. -/
def addConstant (t : Term K) (constant : K) : Term K := t.setConstant (t.constant + constant)

/-- A variable with a coefficient. -/
def weighted (v : Variable) (coefficient : K) : Term K := (0 : Term K).addTerm v coefficient

/-- A variable alone. -/
def ofVariable (v : Variable) : Term K := weighted v 1

/-- Multiplies the constant and every coefficient. Products that are
zero drop out. -/
def scale (t : Term K) (factor : K) : Term K where
  coefficients := t.coefficients.filterMap fun c => keep (c * factor)
  constant := t.constant * factor
  nonzero v c h := by
    rw [OrderedMap.get?_filterMap] at h
    obtain ⟨d, _, hd⟩ := Option.bind_eq_some_iff.mp h
    obtain ⟨hc, rfl⟩ := keep_eq_some.mp hd
    exact hc

/-- Adds `sign` times another term. -/
def absorb (t other : Term K) (sign : K) : Term K :=
  other.coefficients.toList.foldl (fun t p => t.addTerm p.1 (sign * p.2))
    (t.addConstant (sign * other.constant))

instance : Add (Term K) := ⟨fun s t => s.absorb t 1⟩
instance : Sub (Term K) := ⟨fun s t => s.absorb t (-1)⟩
instance : Neg (Term K) := ⟨fun t => t.scale (-1)⟩

/-- The sum of terms, from left to right. -/
def sum (ts : List (Term K)) : Term K := ts.foldl (· + ·) 0

/-! ### Looking at a term -/

/-- The coefficient of a variable, zero where it does not occur. -/
def coefficient (t : Term K) (v : Variable) : K := (t.coefficients.get? v).getD 0

/-- Whether no variable occurs. -/
def isConstant (t : Term K) : Bool := t.coefficients.isEmpty

/-- How many variables occur. -/
def size (t : Term K) : Nat := t.coefficients.size

/-- Whether the term is the number zero. -/
def isEmpty (t : Term K) : Bool := t.isConstant && t.constant == 0

/-- The variables that occur, in the order of creation. -/
def occurring (t : Term K) : List Variable := t.coefficients.keys

/-- The variables that occur, by name. -/
def variableSet (t : Term K) : Except ModelError VariableSet := VariableSet.ofList t.occurring

/-- The value of a term where the variables have the given values, and
zero where they have none. The products are added in the order of
creation, starting from negative zero, which changes no summand; the
constant comes last. -/
def evaluate (t : Term K) (values : Valuation K) : K :=
  t.coefficients.toList.foldl (fun s p => s + p.2 * (values.get? p.1).getD 0) (-0) + t.constant

/-! ### The view -/

theorem get?_alter (t : Term K) (v : Variable) (f : Option K → K) (w : Variable) :
    (t.alter v f).coefficients.get? w
      = if w = v then keep (f (t.coefficients.get? v)) else t.coefficients.get? w :=
  OrderedMap.get?_alter ..

theorem get?_addTerm (t : Term K) (v : Variable) (c : K) (w : Variable) :
    (t.addTerm v c).coefficients.get? w
      = if w = v then
          match t.coefficients.get? v with
          | some d => if c == 0 then some d else keep (d + c)
          | none => keep c
        else t.coefficients.get? w := by
  unfold addTerm
  split
  · rename_i h
    by_cases hw : w = v
    · subst hw
      cases t.coefficients.get? w <;> simp [keep, h]
    · simp [hw]
  · rename_i h
    rw [get?_alter]
    by_cases hw : w = v
    · simp only [if_pos hw]
      cases t.coefficients.get? v <;> simp
    · simp [hw]

theorem constant_addTerm (t : Term K) (v : Variable) (c : K) :
    (t.addTerm v c).constant = t.constant := by
  unfold addTerm
  split <;> rfl

theorem get?_setCoefficient (t : Term K) (v : Variable) (c : K) (w : Variable) :
    (t.setCoefficient v c).coefficients.get? w
      = if w = v then keep c else t.coefficients.get? w := get?_alter ..

theorem get?_scale (t : Term K) (factor : K) (v : Variable) :
    (t.scale factor).coefficients.get? v
      = (t.coefficients.get? v).bind fun c => keep (c * factor) := OrderedMap.get?_filterMap ..

/-! ### How terms are written -/

open Decimal (plain)

/-- A coefficient above zero, or not a number, in front of its variable;
one is not written. -/
def factorText (c : Float) : String := if c == 1 then "" else plain c ++ " "

/-- The first summand: its sign is written only if it is negative. -/
def firstText (v : Variable) (c : Float) : String :=
  (if c < 0 then "-" ++ factorText (-c) else factorText c) ++ v.name

/-- A further summand. -/
def nextText (v : Variable) (c : Float) : String :=
  (if c < 0 then " - " ++ factorText (-c) else " + " ++ factorText c) ++ v.name

/-- The constant behind the summands; zero is not written. -/
def constantText (c : Float) : String :=
  if c < 0 then " - " ++ plain (-c)
  else if 0 < c then " + " ++ plain c
  else ""

/-- A term as it is written in a model. -/
def text (t : Term Float) : String :=
  match Variable.sortByName t.coefficients.toList with
  | [] => plain t.constant
  | (v, c) :: rest =>
    firstText v c ++ String.join (rest.map fun p => nextText p.1 p.2) ++ constantText t.constant

end Term

end LinearProgram
