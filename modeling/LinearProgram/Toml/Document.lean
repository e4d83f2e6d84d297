import LinearProgram.Toml.Text

/-!
# `LinearProgram.Toml.Document`: reading TOML documents

A document is read line by line: blank lines and comments, headers of
tables, and pairs of a key and a value. A document with a single fault
anywhere is none.

* `value` reads a value; the depth to which it may be nested is what
  makes it end.
* `document` reads a text and gives the entries of its outermost table.
-/

set_option autoImplicit false

namespace LinearProgram.Toml

/-- The members of an array, behind its opening bracket. Each is read
by `item` and takes at least one character, so `most` can be the length
of the text. -/
def arrayItems (item : Reader Value) : (most : Nat) → Reader (List Value)
  | 0, _ => none
  | most + 1, cs =>
    match skipLines false cs with
    | ']' :: rest => some ([], rest)
    | cs => do
      let (v, rest) ← item cs
      match skipLines false rest with
      | ',' :: rest => do
        let (others, rest) ← arrayItems item most rest
        some (v :: others, rest)
      | ']' :: rest => some ([v], rest)
      | _ => none

/-- A key, an equals sign and a value. -/
def pair (item : Reader Value) : Reader (List String × String × Value) := fun cs => do
  let ((parts, last), rest) ← key cs
  let (v, rest) ← item (skipSpaces (← expect '=' rest))
  some ((parts, last, v), rest)

/-- The pairs of a table in braces, behind the opening brace or a comma. -/
def inlinePairs (item : Reader Value) (entries : Entries) : (most : Nat) → Reader Entries
  | 0, _ => none
  | most + 1, cs => do
    let ((parts, last, v), rest) ← pair item cs
    let entries ← addPair parts last v .explicit entries
    match skipSpaces rest with
    | ',' :: rest => inlinePairs item entries most rest
    | '\x7d' :: rest => some (entries, rest)
    | _ => none

/-- A value that is nested at most `depth` deep. -/
def value : (depth : Nat) → Reader Value
  | depth, '[' :: rest =>
    match depth with
    | 0 => none
    | depth + 1 => (arrayItems (value depth) rest.length rest).map fun r => (.array r.1, r.2)
  | depth, '\x7b' :: rest =>
    match depth, skipSpaces rest with
    | 0, _ => none
    | _, '\x7d' :: rest => some (.inlineTable [], rest)
    | depth + 1, rest =>
      (inlinePairs (value depth) [] rest.length rest).map fun r => (.inlineTable r.1, r.2)
  | _, 't' :: 'r' :: 'u' :: 'e' :: rest => some (.boolean true, rest)
  | _, 'f' :: 'a' :: 'l' :: 's' :: 'e' :: rest => some (.boolean false, rest)
  | _, c :: rest =>
    if c = '"' ∨ c = '\x27' then
      (string (c :: rest)).map fun r => (.text (String.ofList r.1), r.2)
    else numeral (c :: rest)
  | _, [] => none

/-- What has been read of a document: its entries, and the table to
which pairs are added. -/
structure State where
  here : List String
  entries : Entries

/-- A header behind its opening brackets, up to the closing ones. -/
def header (closing : List Char) : Reader (List String × String) := fun cs => do
  let (k, rest) ← key cs
  let rest ← closing.foldlM (fun rest c => expect c rest) rest
  some (k, ← endOfLine? rest)

/-- Adds a pair to the table at hand. -/
def State.addPair (s : State) (parts : List String) (last : String) (v : Value) : Option State :=
  (alterAt .implied (Toml.addPair parts last v) s.here .explicit s.entries).map fun entries =>
    { s with entries }

/-- Opens a table and makes it the one at hand. -/
def State.open (s : State) (parts : List String) (last : String)
    (change : String → Origin → Entries → Option Entries) : Option State :=
  (alterAt .implied (change last) parts .explicit s.entries).map fun entries =>
    ⟨parts ++ [last], entries⟩

/-- The lines of a document. Each takes at least one character, so
`most` can be the length of the text. -/
def lines (s : State) : (most : Nat) → List Char → Option State
  | 0, cs => if cs.isEmpty then some s else none
  | most + 1, cs =>
    match skipSpaces cs with
    | [] => some s
    | '#' :: rest => do lines s most (← endOfLine? ('#' :: rest))
    | '\n' :: rest => lines s most rest
    | '\r' :: '\n' :: rest => lines s most rest
    | '[' :: '[' :: rest => do
      let ((parts, last), rest) ← header [']', ']'] rest
      lines (← s.open parts last openTableAmong) most rest
    | '[' :: rest => do
      let ((parts, last), rest) ← header [']'] rest
      lines (← s.open parts last openTable) most rest
    | cs => do
      let ((parts, last, v), rest) ← pair (value nestingLimit) cs
      lines (← s.addPair parts last v) most (← endOfLine? rest)

/-- Reads a document. A byte order mark may stand before it. -/
def document (text : String) : Option Entries :=
  let cs := match text.toList with
    | '\ufeff' :: rest => rest
    | cs => cs
  (lines ⟨[], []⟩ cs.length cs).map State.entries

end LinearProgram.Toml
