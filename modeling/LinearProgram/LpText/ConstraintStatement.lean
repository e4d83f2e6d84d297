import LinearProgram.Constraint
import LinearProgram.LpText.Expression
import LinearProgram.LpText.Statement

/-!
# `LinearProgram.LpText.ConstraintStatement`: reading constraints

A constraint may begin with its name and a colon, and with a guard and
an arrow. What remains relates an expression to one constant side, or
stands between two. A guard is read like a constraint; the one variable
in it is declared binary by standing there.
-/

set_option autoImplicit false

namespace LinearProgram.LpText

/-- Tokens cut at the relations. -/
def sides {K : Type} : List (Token K) → List (Token K) × List (Relation × List (Token K))
  | [] => ([], [])
  | .relation r :: rest => ([], (r, (sides rest).1) :: (sides rest).2)
  | t :: rest => (t :: (sides rest).1, (sides rest).2)

/-- Tokens behind a name and a colon, and the name. -/
def splitName {K : Type} : List (Token K) → Option String × List (Token K)
  | .name name :: .colon :: rest => (some name, rest)
  | tokens => (none, tokens)

/-- Tokens before and behind the first arrow. -/
def splitArrow {K : Type} : List (Token K) → Option (List (Token K)) × List (Token K)
  | [] => (none, [])
  | .arrow :: rest => (some [], rest)
  | t :: rest =>
    match splitArrow rest with
    | (some before, behind) => (some (t :: before), behind)
    | (none, all) => (none, t :: all)

/-- Reads what a constraint relates. All expressions are read before
their sides are looked at. -/
def relation (tokens : List (Token Float)) : Reading Float (Constraint Float) :=
  match sides tokens with
  | (_, []) => throw .missingRelation
  | (lhs, [(r, rhs)]) => do
    let lhs ← expression lhs
    let rhs ← expression rhs
    .lift .model (Constraint.relate lhs r rhs)
  | (lower, [(l, middle), (r, upper)]) => do
    let lower ← expression lower
    let term ← expression middle
    let upper ← expression upper
    if lower.isConstant && upper.isConstant then
      .lift .model (Constraint.range lower.constant l term r upper.constant)
    else throw .variableOuterSide
  | _ => throw .tooManyRelations

/-- Makes a variable binary, as far as a text can say so. -/
def declareGuard (line : Nat) (v : Variable) (s : Symbols) : Symbols :=
  (s.mapRegistry fun r => r.update v fun a => { a with kind := .binary, lower := 0, upper := 1 })
    |>.declareKind v.name .binary line

/-- Reads a guard. A single variable in it becomes binary. -/
def guard (line : Nat) (tokens : List (Token Float)) : Reading Float (Constraint Float) := do
  let c ← relation tokens
  match c.term.occurring with
  | [v] => do
    Action.change (declareGuard line v)
    pure c
  | _ => pure c

/-- Attaches a guard, which must be an indicator. -/
def attach (c guard : Constraint Float) : Reading Float (Constraint Float) := fun s =>
  Action.lift .model (c.withIndicator s.registry guard) s

/-- Gives a constraint the name that its statement begins with. -/
def nameAs (c : Constraint Float) : Option String → Constraint Float
  | some name => c.named name
  | none => c

/-- Reads the tokens of a constraint. The guard is read last. -/
def constraintOf (line : Nat) (tokens : List (Token Float)) :
    Reading Float (Constraint Float) := do
  let (name, body) := splitName tokens
  let (guardTokens, body) := splitArrow body
  let c ← relation body
  let c := nameAs c name
  match guardTokens with
  | none => pure c
  | some guardTokens => do
    let g ← guard line guardTokens
    attach c g

/-- Reads a constraint. -/
def constraintStatement (statement : Numbered) : Reading Float (Constraint Float) := do
  let tokens ← Action.lift .token (tokenize statement.text)
  constraintOf statement.line tokens

end LinearProgram.LpText
