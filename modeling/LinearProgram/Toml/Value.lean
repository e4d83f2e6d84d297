/-!
# `LinearProgram.Toml.Value`: what a TOML document holds

A TOML document is a table of values, some of which are tables again.
A table grows line by line: headers open tables, and a key with dots
puts its value into tables that it opens on the way. What may still be
added to a table depends on how it came about, which is why a table
keeps its origin.

* `alterAt` goes down a path of keys, opening the tables that are
  missing, and changes what is there.
* `addPair`, `openTable` and `openTableAmong` are the three ways in which a
  line changes a document. Each is refused if it would define something
  for a second time.
-/

set_option autoImplicit false

namespace LinearProgram.Toml

/-- How a table came about. -/
inductive Origin where
  /-- By its own header. -/
  | explicit
  /-- By the header of a table in it. -/
  | implied
  /-- By a key with dots. -/
  | dotted
deriving DecidableEq, Repr

/-- A value of a document. Dates and times are not told apart. -/
inductive Value where
  | text (text : String)
  | integer (value : Int)
  | float (value : Float)
  | boolean (value : Bool)
  | moment
  | array (items : List Value)
  /-- A table in braces, to which nothing can be added. -/
  | inlineTable (entries : List (String × Value))
  | table (origin : Origin) (entries : List (String × Value))
  /-- Tables that share a header, the last one first. -/
  | tables (elements : List (List (String × Value)))

/-- The entries of a table in the order in which they were added. -/
abbrev Entries := List (String × Value)

/-- Replaces the value of a key. -/
def replace (key : String) (value : Value) (entries : Entries) : Entries :=
  entries.map fun e => if e.1 = key then (key, value) else e

/-- Changes what is at the end of a path. Missing tables are opened
with the origin `fresh`; a path of dotted keys, for which `fresh` is
`dotted`, does not lead through tables that have a header. -/
def alterAt (fresh : Origin) (change : Origin → Entries → Option Entries) :
    List String → Origin → Entries → Option Entries
  | [], origin, entries => change origin entries
  | key :: rest, _, entries =>
    match entries.lookup key with
    | none =>
      (alterAt fresh change rest fresh []).map fun sub => entries ++ [(key, .table fresh sub)]
    | some (.table origin sub) =>
      if fresh = .dotted && origin = .explicit then none
      else (alterAt fresh change rest origin sub).map fun sub =>
        replace key (.table origin sub) entries
    | some (.tables (last :: before)) =>
      (alterAt fresh change rest .explicit last).map fun last =>
        replace key (.tables (last :: before)) entries
    | some _ => none

/-- Adds a value under a new key. A table that a dotted key has led to
must have come about by dotted keys, and other tables take plain keys
only. -/
def addHere (isPlain : Bool) (key : String) (value : Value) (origin : Origin)
    (entries : Entries) : Option Entries :=
  if decide (origin = .dotted) == isPlain || (entries.lookup key).isSome then none
  else some (entries ++ [(key, value)])

/-- Adds a value under a key with the given parts before its last one. -/
def addPair (parts : List String) (key : String) (value : Value) (origin : Origin)
    (entries : Entries) : Option Entries :=
  alterAt .dotted (addHere parts.isEmpty key value) parts origin entries

/-- Opens the table of a header, which may be there already if it was
only implied. -/
def openTable (key : String) (_ : Origin) (entries : Entries) : Option Entries :=
  match entries.lookup key with
  | none => some (entries ++ [(key, .table .explicit [])])
  | some (.table .implied sub) => some (replace key (.table .explicit sub) entries)
  | some _ => none

/-- Opens a further table among those that share a header. -/
def openTableAmong (key : String) (_ : Origin) (entries : Entries) : Option Entries :=
  match entries.lookup key with
  | none => some (entries ++ [(key, .tables [[]])])
  | some (.tables elements) => some (replace key (.tables ([] :: elements)) entries)
  | some _ => none

end LinearProgram.Toml
