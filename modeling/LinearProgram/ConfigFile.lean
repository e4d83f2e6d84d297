import LinearProgram.Config
import LinearProgram.Storage
import LinearProgram.Toml.Document

/-!
# `LinearProgram.ConfigFile`: settings in TOML

Settings are keys of the outermost table of a TOML document. What is
not there keeps its initial value, other keys mean nothing, and a value
of the wrong type makes the document as unreadable as a fault in its
text. A whole number will do where a number is expected.
-/

set_option autoImplicit false

namespace LinearProgram

/-- Why settings could not be read. -/
inductive ConfigError where
  | file (error : FileError)
  /-- No document, or one with a setting of the wrong type. -/
  | malformed
  /-- A setting outside its range. -/
  | invalidValue (error : ModelError)

/-- The setting that a check of the settings complains of. -/
def ConfigError.culprit : ModelError → String
  | .invalidParameter knob _ => knob.text
  | _ => "config"

/-- The wording of a failure. -/
def ConfigError.message : ConfigError → String
  | file error => "failed to read config file: " ++ error.message
  | malformed => "failed to parse config"
  | invalidValue error => "invalid value for " ++ culprit error ++ ": " ++ error.message

namespace Config

open Toml (Value Entries)

/-- A setting that is either on or off. -/
def booleanOf : Value → Option Bool
  | .boolean b => some b
  | _ => none

/-- A setting that is a number. -/
def floatOf : Value → Option Float
  | .float x => some x
  | .integer n => some (Decimal.toFloat (decide (n < 0)) ⟨n.natAbs, 0⟩)
  | _ => none

/-- A setting that is a count. -/
def countOf : Value → Option Nat
  | .integer n => if 0 ≤ n then some n.toNat else none
  | _ => none

/-- A setting that is a text. -/
def textOf : Value → Option String
  | .text s => some s
  | _ => none

/-- The value of a key, which keeps its initial value if it is not
there; none if it is of the wrong type. -/
def setting {α : Type} (entries : Entries) (key : String) (read : Value → Option α) (initial : α) :
    Option α :=
  match entries.lookup key with
  | some v => read v
  | none => some initial

/-- The settings in the entries of a document. -/
def ofEntries (entries : Entries) : Option Config := do
  let optional {α : Type} (key : String) (read : Value → Option α) : Option (Option α) :=
    setting entries key (fun v => (read v).map some) none
  let quiet ← setting entries "quiet" booleanOf initial.quiet
  let timeLimit ← optional Knob.timeLimit.text floatOf
  let presolve ← setting entries "presolve" booleanOf initial.presolve
  let threads ← setting entries "threads" countOf initial.threads
  let integerTolerance ← optional Knob.integerTolerance.text floatOf
  let relativeGap ← optional Knob.relativeGap.text floatOf
  let absoluteGap ← optional Knob.absoluteGap.text floatOf
  let warmStart ← setting entries "warm_start" booleanOf initial.warmStart
  let cacheDir ← optional "cache_dir" textOf
  some ⟨quiet, timeLimit, presolve, threads, integerTolerance, relativeGap, absoluteGap,
    warmStart, cacheDir⟩

/-- Reads settings from the text of a document and checks them. -/
def ofToml (text : String) : Except ConfigError Config :=
  match (Toml.document text).bind ofEntries with
  | none => .error .malformed
  | some c =>
    match c.validate with
    | .ok () => .ok c
    | .error e => .error (.invalidValue e)

/-- Reads settings from a file. -/
def ofFile {δ : Type} [Storage δ] (files : δ) (path : Path) : Except ConfigError Config :=
  match readText files path with
  | .ok text => ofToml text
  | .error e => .error (.file e)

end Config

end LinearProgram
