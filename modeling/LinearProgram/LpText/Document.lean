import LinearProgram.LpText.BoundStatement
import LinearProgram.Model

/-!
# `LinearProgram.LpText.Document`: reading model text

Everything in a text that can be read is kept, and everything that
cannot be read is reported, so a text always yields a `Document`. A
statement is read when it is complete; the kinds and bounds of the
variables are settled at the end: what was not declared is real, and
bounds that were not given are zero and infinity, or zero and one for a
binary variable.

* `Draft.take` deals with one item, `Draft.settle` with the variables.
* `read` reads a text into a registry that may hold variables already.
-/

set_option autoImplicit false

namespace LinearProgram.LpText

/-- What a text says. -/
structure Document where
  model : Model
  /-- Every variable that is mentioned or declared. -/
  variableSet : VariableSet
  problems : List Problem

/-- Whether all of the text could be read. -/
def Document.isComplete (d : Document) : Bool := d.problems.isEmpty

/-- What has been read of a text. -/
structure Draft where
  objective : Option Objective
  constraints : List (Constraint Float)
  symbols : Symbols
  problems : List Problem

namespace Draft

/-- Nothing has been read. -/
def start (registry : Registry) : Draft := ⟨none, [], .start registry, []⟩

/-- Reports a problem. -/
def report (d : Draft) (line : Nat) (error : ReadError Float) : Draft :=
  { d with problems := d.problems ++ [⟨line, error⟩] }

/-- Reads something, keeping its result or reporting why there is none. -/
def attempt {α : Type} (d : Draft) (line : Nat) (reading : Reading Float α)
    (keep : Draft → α → Draft) : Draft :=
  match reading d.symbols with
  | (.ok a, symbols) => keep { d with symbols } a
  | (.error e, symbols) => { d with symbols }.report line e

/-- Reads the tokens of an objective, which may begin with a name. -/
def objectiveTerm (text : List Char) : Reading Float (Term Float) := do
  let tokens ← Action.lift .token (tokenize text)
  expression (splitName tokens).2

/-- Adds a term to the objective. The first section of an objective
decides the direction. -/
def addObjective (d : Draft) (sense : Sense) (term : Term Float) : Draft :=
  { d with
    objective := match d.objective with
      | some o => some { o with term := o.term + term }
      | none => some ⟨sense, term⟩ }

/-- Declares one word to be a variable of a kind. -/
def declareWord (kind : Kind) (line : Nat) (d : Draft) (word : List Char) : Draft :=
  let name := String.ofList word
  if isName word then
    let symbols := (d.symbols.mention name).2
    match (symbols.entries.get? name).bind (·.kind) with
    | some (declared, _) =>
      if declared = kind then { d with symbols := symbols.declareKind name kind line }
      else { d with symbols }.report line (.redeclared name declared)
    | none => { d with symbols := symbols.declareKind name kind line }
  else d.report line (.notAName name)

/-- Declares every word of a statement. -/
def declareWords (d : Draft) (kind : Kind) (s : Numbered) : Draft :=
  (Text.words s.text).foldl (declareWord kind s.line) d

/-- Reads a statement by the rules of its section. -/
def takeStatement (d : Draft) (place : Section) (s : Numbered) : Draft :=
  match place with
  | .preamble => d.report s.line (.outsideSections (String.ofList s.text))
  | .closed => d.report s.line (.afterEnd (String.ofList s.text))
  | .objective sense =>
    d.attempt s.line (objectiveTerm s.text) fun d term => d.addObjective sense term
  | .constraints =>
    d.attempt s.line (constraintStatement s) fun d c =>
      { d with constraints := d.constraints ++ [c] }
  | .bounds => d.attempt s.line (boundStatement s) fun d _ => d
  | .binary => d.declareWords .binary s
  | .general => d.declareWords .integer s

/-- Opens a section. The header of an objective decides its direction
even if nothing follows. -/
def openSection (d : Draft) : Section → Draft
  | .objective sense => { d with objective := some (d.objective.getD ⟨sense, 0⟩) }
  | _ => d

/-- Deals with an opening or a statement. -/
def take (d : Draft) : Item → Draft
  | .opening opened => d.openSection opened
  | .statement place s => d.takeStatement place s

/-! ### The end of a text -/

/-- The kind of a variable in the end. -/
def finalKind (e : Entry) : Kind :=
  match e.kind with
  | some (kind, _) => kind
  | none => .real

/-- The bounds of a variable in the end. -/
def finalBounds (e : Entry) : Float × Float :=
  match e.bounds, finalKind e with
  | some b, _ => (b.lower, b.upper)
  | none, .binary => (0, 1)
  | none, _ => (0, Binary64.infinity)

/-- The line to which a problem with the bounds is put down: the later
one of the two declarations. -/
def finalLine (e : Entry) : Nat :=
  max (match e.bounds with
    | some b => b.line
    | none => 0) (match e.kind with
    | some (_, line) => line
    | none => 0)

/-- Gives a variable its final kind and bounds, and checks them. -/
def settleEntry (state : Registry × List Problem) (e : Entry) : Registry × List Problem :=
  let (lower, upper) := finalBounds e
  let registry := state.1.update e.handle fun a => { a with kind := finalKind e, lower, upper }
  match registry.validate e.handle with
  | .ok () => (registry, state.2)
  | .error error => (registry, state.2 ++ [⟨finalLine e, .model error⟩])

/-- Settles all variables, in the order of their names. -/
def settle (d : Draft) : Document × Registry :=
  let settled := d.symbols.entries.values.foldl settleEntry (d.symbols.registry, d.problems)
  ({ model := ⟨d.objective.getD .zero, d.constraints⟩
     variableSet := d.symbols.variableSet
     problems := settled.2 },
    settled.1)

end Draft

/-- Reads a text. Its variables are new ones in the registry. -/
def read (registry : Registry) (text : String) : Document × Registry :=
  ((items text.toList).foldl Draft.take (.start registry)).settle

end LinearProgram.LpText
