import LinearProgram.Action
import LinearProgram.LpText.ReadError
import LinearProgram.Registry
import LinearProgram.VariableSet

/-!
# `LinearProgram.LpText.Symbols`: the names of a text and what is said of them

A name stands for one variable throughout a text. The variable is
created where the name occurs for the first time, even in a statement
that turns out to be wrong, and what the text says of its kind and
bounds is noted until the text has been read.

* `mention` gives the variable of a name, created if it is new.
* `declareKind` and `declareBounds` note what the text says.
* `variableSet` is the set of all variables; names are unique in it
  because every entry is kept under its variable's own name.
-/

set_option autoImplicit false

namespace LinearProgram.LpText

/-- Bounds that a text gives a variable, and the line of the statement. -/
structure DeclaredBounds where
  lower : Float
  upper : Float
  line : Nat

/-- A variable of a text and what is said of it. -/
structure Entry where
  handle : Variable
  /-- The kind, and the line where it was last declared. -/
  kind : Option (Kind × Nat)
  bounds : Option DeclaredBounds

/-- The variables of a text by name, and the attributes of all variables. -/
structure Symbols where
  registry : Registry
  entries : OrderedMap String Entry
  keyed : ∀ name e, entries.get? name = some e → e.handle.name = name

namespace Symbols

/-- No name has occurred. -/
def start (registry : Registry) : Symbols := ⟨registry, ∅, fun _ _ h => by simp at h⟩

/-- The variable of a name. One that is new begins as an integer
variable without bounds. -/
def mention (s : Symbols) (name : String) : Variable × Symbols :=
  match s.entries.get? name with
  | some e => (e.handle, s)
  | none =>
    let created := s.registry.freeInteger name
    (created.1,
      { registry := created.2
        entries := s.entries.insert name ⟨created.1, none, none⟩
        keyed := fun n e h => by
          rw [OrderedMap.get?_insert] at h
          split at h
          · rename_i hn
            rw [← Option.some.inj h, hn]
            rfl
          · exact s.keyed n e h })

/-- Changes what is said of a name, which must not change its variable. -/
def note (s : Symbols) (name : String) (f : Entry → Entry)
    (keeps : ∀ e, (f e).handle = e.handle) : Symbols where
  registry := s.registry
  entries := s.entries.alter name fun e => e.map f
  keyed n e h := by
    rw [OrderedMap.get?_alter] at h
    split at h
    · rename_i hn
      obtain ⟨d, hd, rfl⟩ := Option.map_eq_some_iff.mp h
      rw [keeps, hn]
      exact s.keyed name d hd
    · exact s.keyed n e h

/-- Notes the kind of a name. -/
def declareKind (s : Symbols) (name : String) (kind : Kind) (line : Nat) : Symbols :=
  s.note name (fun e => { e with kind := some (kind, line) }) fun _ => rfl

/-- Bounds with the given sides replaced. A side that was never given
is zero below and infinity above. -/
def updatedBounds (old : Option DeclaredBounds) (lower upper : Option Float) (line : Nat) :
    DeclaredBounds :=
  let before := old.getD ⟨0, Binary64.infinity, line⟩
  ⟨lower.getD before.lower, upper.getD before.upper, line⟩

/-- Notes bounds of a name; a side that is not given stays. -/
def declareBounds (s : Symbols) (name : String) (lower upper : Option Float) (line : Nat) :
    Symbols :=
  (s.mention name).2.note name
    (fun e => { e with bounds := some (updatedBounds e.bounds lower upper line) }) fun _ => rfl

/-- Changes the attributes of all variables. -/
def mapRegistry (s : Symbols) (f : Registry → Registry) : Symbols :=
  { s with registry := f s.registry }

/-- All variables of the text. -/
def variableSet (s : Symbols) : VariableSet where
  byName := s.entries.filterMap fun e => some e.handle
  keyed name v h := by
    rw [OrderedMap.get?_filterMap] at h
    obtain ⟨e, he, hv⟩ := Option.bind_eq_some_iff.mp h
    rw [← Option.some.inj hv]
    exact s.keyed name e he

end Symbols

/-- Reading some tokens: the names that occur are entered, and stay
entered if the reading fails. -/
abbrev Reading (K α : Type) := Action Symbols (ReadError K) α

/-- The variable of a name, as a part of reading. -/
def mention {K : Type} (name : String) : Reading K Variable := .step fun s => s.mention name

end LinearProgram.LpText
