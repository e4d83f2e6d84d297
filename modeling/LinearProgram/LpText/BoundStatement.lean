import LinearProgram.LpText.ConstraintStatement

/-!
# `LinearProgram.LpText.BoundStatement`: reading bounds

A statement on bounds names one variable and gives one side of its
bounds, both sides, or says that it is free. `boundOf` reads what the
statement says; it is noted only if all of it can be read.
-/

set_option autoImplicit false

namespace LinearProgram.LpText

/-- What a statement says: a name and the sides it gives. -/
structure BoundClause where
  name : String
  lower : Option Float
  upper : Option Float

/-- A number with any signs in front of it, and nothing behind it. -/
def signedNumber (sign : Float) : List (Token Float) → Except (ReadError Float) Float
  | [] => .error .expectedNumber
  | .plus :: rest => signedNumber sign rest
  | .minus :: rest => signedNumber (-sign) rest
  | [.number value] => .ok (sign * value)
  | t :: _ => .error (.notANumber t)

/-- The clause for `name rel value`. -/
def clauseOf (name : String) (relation : Relation) (value : Float) : BoundClause :=
  match relation with
  | .atMost => ⟨name, none, some value⟩
  | .atLeast => ⟨name, some value, none⟩
  | .equal => ⟨name, some value, some value⟩

/-- The clause for `left rel name rel right`. The relations must both be
`<=` or both be `>=`. -/
def rangeClause (name : String) (l r : Relation) (left right : Float) :
    Except (ReadError Float) BoundClause :=
  match l, r with
  | .atMost, .atMost => .ok ⟨name, some left, some right⟩
  | .atLeast, .atLeast => .ok ⟨name, some right, some left⟩
  | l, r => .error (.incompatibleBounds l r)

/-- Whether tokens say that a variable is free. -/
def freeName? : List (Token Float) → Option String
  | [.name name, .name word] => if folded word.toList == "free".toList then some name else none
  | _ => none

/-- What tokens say of bounds; `text` is for the error. -/
def boundOf (text : String) (tokens : List (Token Float)) :
    Except (ReadError Float) BoundClause :=
  match freeName? tokens with
  | some name => .ok ⟨name, some (-Binary64.infinity), some Binary64.infinity⟩
  | none =>
    match sides tokens with
    | ([.name name], [(r, rhs)]) => (signedNumber 1 rhs).map (clauseOf name r)
    | (lhs, [(r, [.name name])]) => (signedNumber 1 lhs).map (clauseOf name r.flip)
    | (_, [_]) => .error .noLoneVariable
    | (lhs, [(l, [.name name]), (r, rhs)]) =>
      match signedNumber 1 lhs, signedNumber 1 rhs with
      | .ok left, .ok right => rangeClause name l r left right
      | .error e, _ => .error e
      | _, .error e => .error e
    | (_, [_, _]) => .error .noMiddleVariable
    | _ => .error (.unreadableBound text)

/-- Reads and notes bounds. -/
def boundStatement (statement : Numbered) : Reading Float Unit := do
  let tokens ← Action.lift .token (tokenize statement.text)
  let clause ← Action.lift id (boundOf (String.ofList statement.text) tokens)
  Action.change fun s => s.declareBounds clause.name clause.lower clause.upper statement.line

end LinearProgram.LpText
