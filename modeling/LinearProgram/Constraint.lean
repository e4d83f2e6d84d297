import LinearProgram.Registry
import LinearProgram.Term

/-!
# `LinearProgram.Constraint`: linear constraints and their guards

A constraint relates a term to one bound or encloses it between two. It
may have a name, and it may be guarded: a guarded constraint has to
hold only where its guard does. A guard is itself a constraint, one
that fixes a binary variable to 0 or 1.

* `left`, `right`, `range`, `relate` and `between` make constraints;
  `chain` and `chainLeft` extend a constraint with one bound to a range.
* `isIndicator` is the test for guards, made when a guard is attached.
* `normalize` moves the constant of the term into the bounds and puts
  the term first.
* `Constraint.text` writes a constraint.
-/

set_option autoImplicit false

namespace LinearProgram

/-- The bounds of a constraint and where they stand. -/
inductive Shape (K : Type) where
  /-- The bound stands on the left of the term. -/
  | left (bound : K) (relation : Relation)
  /-- The bound stands on the right of the term. -/
  | right (relation : Relation) (bound : K)
  | equal (bound : K)
  /-- The term stands between two bounds. -/
  | range (lower : K) (left right : Relation) (upper : K)
deriving BEq

/-- A constraint apart from its guard. -/
structure Row (K : Type) [Scalar K] where
  shape : Shape K
  term : Term K
  name : Option String
deriving BEq

/-- A constraint with or without a guard. -/
inductive Constraint (K : Type) [Scalar K] where
  | plain (row : Row K)
  | guarded (guard : Constraint K) (row : Row K)
deriving BEq

namespace Shape

variable {K : Type} [Scalar K]

/-- `bound rel term`. -/
def ofLeft (bound : K) : Relation → Shape K
  | .equal => equal bound
  | relation => left bound relation

/-- `term rel bound`. -/
def ofRight (relation : Relation) (bound : K) : Shape K :=
  match relation with
  | .equal => equal bound
  | relation => right relation bound

/-- `lower rel term rel upper`, where both relations point the same way.
The bounds themselves are not compared. -/
def ofRange (lower : K) (left right : Relation) (upper : K) : Except ModelError (Shape K) :=
  if left.enclosesWith right then .ok (range lower left right upper)
  else .error (.incompatibleRelations left right)

/-- Extends `lower rel term` on the right. -/
def chain (relation : Relation) (upper : K) : Shape K → Except ModelError (Shape K)
  | left lower rel => ofRange lower rel relation upper
  | equal lower => ofRange lower .equal relation upper
  | right _ _ => .error (.unchainable .termFirst)
  | range _ _ _ _ => .error (.unchainable .threeSided)

/-- Extends `term rel upper` on the left. -/
def chainLeft (lower : K) (relation : Relation) : Shape K → Except ModelError (Shape K)
  | right rel upper => ofRange lower relation rel upper
  | equal upper => ofRange lower relation .equal upper
  | left _ _ => .error (.unchainable .boundFirst)
  | range _ _ _ _ => .error (.unchainable .threeSided)

/-- The shape for a term that is smaller by `offset`, with the term first. -/
def normalize (offset : K) : Shape K → Shape K
  | left bound relation => right relation.flip (bound - offset)
  | right relation bound => right relation (bound - offset)
  | equal bound => equal (bound - offset)
  | range lower l r upper => range (lower - offset) l r (upper - offset)

/-- How a shape is written around a term. -/
def text (term : String) : Shape Float → String
  | left bound relation => Decimal.plain bound ++ " " ++ relation.text ++ " " ++ term
  | right relation bound => term ++ " " ++ relation.text ++ " " ++ Decimal.plain bound
  | equal bound => term ++ " = " ++ Decimal.plain bound
  | range lower l r upper =>
    Decimal.plain lower ++ " " ++ l.text ++ " " ++ term ++ " " ++ r.text ++ " "
      ++ Decimal.plain upper

end Shape

namespace Constraint

variable {K : Type} [Scalar K]

/-! ### Parts -/

/-- The constraint apart from its guard. -/
def row : Constraint K → Row K
  | plain row => row
  | guarded _ row => row

/-- The guard, if there is one. -/
def guard : Constraint K → Option (Constraint K)
  | plain _ => none
  | guarded guard _ => some guard

/-- The bounds and where they stand. -/
def shape (c : Constraint K) : Shape K := c.row.shape

/-- The term that is bounded. -/
def term (c : Constraint K) : Term K := c.row.term

/-- The name, if there is one. -/
def name (c : Constraint K) : Option String := c.row.name

/-- Changes all but the guard. -/
def mapRow (f : Row K → Row K) : Constraint K → Constraint K
  | plain row => plain (f row)
  | guarded guard row => guarded guard (f row)

/-- Gives a constraint a name, in place of an earlier one. -/
def named (c : Constraint K) (name : String) : Constraint K :=
  c.mapRow fun row => { row with name := some name }

/-! ### Making constraints -/

/-- A constraint without name and guard. -/
def ofShape (shape : Shape K) (term : Term K) : Constraint K := plain ⟨shape, term, none⟩

/-- `bound rel term`. -/
def left (bound : K) (relation : Relation) (term : Term K) : Constraint K :=
  ofShape (.ofLeft bound relation) term

/-- `term rel bound`. -/
def right (term : Term K) (relation : Relation) (bound : K) : Constraint K :=
  ofShape (.ofRight relation bound) term

/-- `lower rel term rel upper`. -/
def range (lower : K) (l : Relation) (term : Term K) (r : Relation) (upper : K) :
    Except ModelError (Constraint K) :=
  (Shape.ofRange lower l r upper).map fun shape => ofShape shape term

/-- `lower <= term <= upper`. -/
def between (term : Term K) (lower upper : K) : Constraint K :=
  ofShape (.range lower .atMost .atMost upper) term

/-- Relates two terms, of which exactly one must be constant. -/
def relate (lhs : Term K) (relation : Relation) (rhs : Term K) :
    Except ModelError (Constraint K) :=
  match lhs.isConstant, rhs.isConstant with
  | true, true => .error .bothSidesConstant
  | false, false => .error .neitherSideConstant
  | true, false => .ok (left lhs.constant relation rhs)
  | false, true => .ok (right lhs relation rhs.constant)

/-- Replaces the shape, which may fail; the rest stays. -/
def reshape (c : Constraint K) (f : Shape K → Except ModelError (Shape K)) :
    Except ModelError (Constraint K) :=
  (f c.shape).map fun shape => c.mapRow fun row => { row with shape }

/-- Extends `lower rel term` to `lower rel term relation upper`. -/
def chain (c : Constraint K) (relation : Relation) (upper : K) :
    Except ModelError (Constraint K) := c.reshape (Shape.chain relation upper)

/-- Extends `term rel upper` to `lower relation term rel upper`. -/
def chainLeft (lower : K) (relation : Relation) (c : Constraint K) :
    Except ModelError (Constraint K) := c.reshape (Shape.chainLeft lower relation)

/-! ### Guards -/

/-- Whether a shape is an equation with 0 or 1. -/
def switchValue? : Shape K → Option K
  | .equal bound => if bound == 0 || bound == 1 then some bound else none
  | _ => none

/-- The variable of a term that is one variable and nothing else. -/
def loneVariable? (t : Term K) : Option Variable :=
  match t.coefficients.toList with
  | [(v, c)] => if t.constant == 0 && c == 1 then some v else none
  | _ => none

/-- The binary variable that a guard tests and the value it tests for. -/
def indicatorLiteral? (registry : Registry) (c : Constraint K) : Option (Variable × K) :=
  match switchValue? c.shape, loneVariable? c.term with
  | some bound, some v =>
    if (registry.attributes v).kind = .binary then some (v, bound) else none
  | _, _ => none

/-- Whether a constraint can serve as a guard: it says that a binary
variable is 0, or that it is 1. -/
def isIndicator (registry : Registry) (c : Constraint K) : Bool :=
  (indicatorLiteral? registry c).isSome

/-- Makes a constraint hold only where `guard` does, in place of an
earlier guard. -/
def withIndicator (registry : Registry) (c guard : Constraint K) :
    Except ModelError (Constraint K) :=
  if guard.isIndicator registry then .ok (guarded guard c.row) else .error .notAnIndicator

/-! ### Looking at a constraint -/

/-- Moves the constant of the term into the bounds and puts the term
first. Name and guard stay as they are. -/
def normalize (c : Constraint K) : Constraint K :=
  c.mapRow fun row =>
    { row with
      shape := row.shape.normalize row.term.constant
      term := row.term.setConstant 0 }

/-- The variables of the term and of the guard's term, by name. -/
def variableSet (c : Constraint K) : Except ModelError VariableSet :=
  match c.term.variableSet, c.guard with
  | .ok s, some guard =>
    match s.extend guard.term.occurring with
    | (.ok (), s) => .ok s
    | (.error e, _) => .error e
  | result, _ => result

/-- A constraint as it is written in a model: the name, the guard, and
the bounds around the term. -/
def text : Constraint Float → String
  | plain row => nameText row.name ++ row.shape.text row.term.text
  | guarded guard row =>
    nameText row.name ++ guard.text ++ " -> " ++ row.shape.text row.term.text
where
  /-- The name in front of a constraint. -/
  nameText : Option String → String
    | some name => name ++ ": "
    | none => ""

end Constraint

end LinearProgram
