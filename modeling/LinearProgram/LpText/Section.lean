import LinearProgram.LpText.Token
import LinearProgram.Sense

/-!
# `LinearProgram.LpText.Section`: the sections of model text

Model text is divided by headers. A header is a keyword at the
beginning of a line, in any case, and what follows it on the line
already belongs to the section. A keyword followed by an operator is no
header: there it is the name of a variable. `subject to` and `such
that` are headers whatever follows.
-/

set_option autoImplicit false

namespace LinearProgram.LpText

/-- Where a line stands. -/
inductive Section where
  /-- Before the first header. -/
  | preamble
  | objective (sense : Sense)
  | constraints
  | bounds
  /-- Names of binary variables. -/
  | binary
  /-- Names of integer variables. -/
  | general
  /-- Behind the end of the model. -/
  | closed
deriving DecidableEq, Repr

/-- The operators that keep a keyword from being a header. -/
def isOperator (c : Char) : Bool := ['+', '-', '*', '<', '>', '=', ':'].contains c

/-- Whether a text begins with an operator. -/
def startsWithOperator : List Char → Bool
  | [] => false
  | c :: _ => isOperator c

/-- The first word of a text in lower case, and what follows it. -/
def firstWord (cs : List Char) : String × List Char :=
  (String.ofList (folded (cs.takeWhile fun c => !Text.isBlank c)),
    Text.trimLeft (cs.dropWhile fun c => !Text.isBlank c))

/-- The section that a word opens by itself. -/
def sectionOfWord? (word : String) : Option Section :=
  if ["max", "maximize", "maximise", "maximum"].contains word then some (.objective .maximize)
  else if ["min", "minimize", "minimise", "minimum"].contains word then
    some (.objective .minimize)
  else if ["s.t.", "st", "st."].contains word then some .constraints
  else if ["bound", "bounds"].contains word then some .bounds
  else if ["bin", "binary", "binaries"].contains word then some .binary
  else if ["gen", "general", "generals"].contains word then some .general
  else if word = "end" then some .closed
  else none

/-- The word that must follow a word to open the constraints with it. -/
def secondWord? (word : String) : Option String :=
  if word = "subject" then some "to"
  else if word = "such" then some "that"
  else none

/-- The section that a line opens, and the rest of the line. -/
def header? (line : List Char) : Option (Section × List Char) :=
  let (word, rest) := firstWord line
  match secondWord? word with
  | some expected =>
    let (second, rest) := firstWord rest
    if second = expected then some (.constraints, rest) else none
  | none =>
    match sectionOfWord? word with
    | some opened => if startsWithOperator rest then none else some (opened, rest)
    | none => none

end LinearProgram.LpText
