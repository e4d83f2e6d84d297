import LinearProgram.Variable

/-!
# `LinearProgram.Registry`: the attributes of all variables

Handles are shared by every term that mentions a variable; what is known
about the variables is kept in one place, the `Registry`, which numbers
them in the order of their creation. A change of a variable is therefore
seen wherever its handle occurs.

* `create` checks the bounds, `declare` takes the attributes as given.
* `attributes_declare` and `attributes_update` say what a creation and
  a change do to the attributes of every handle.
-/

set_option autoImplicit false

namespace LinearProgram

/-- The attributes of the variables created so far. -/
structure Registry where
  entries : Array Attributes

namespace Registry

/-- No variable has been created. -/
def empty : Registry := ⟨#[]⟩

instance : EmptyCollection Registry := ⟨empty⟩
instance : Inhabited Registry := ⟨empty⟩

/-- How many variables have been created. -/
def size (r : Registry) : Nat := r.entries.size

/-- What is known about a variable. -/
def attributes (r : Registry) (v : Variable) : Attributes := r.entries[v.id]?.getD default

/-- Creates a variable with the given attributes. -/
def declare (r : Registry) (name : String) (a : Attributes) : Variable × Registry :=
  (⟨r.size, name⟩, ⟨r.entries.push a⟩)

/-- Creates a variable whose bounds suit its kind. -/
def create (r : Registry) (name : String) (kind : Kind) (lower upper : Float) :
    Except ModelError (Variable × Registry) :=
  match (Attributes.bounded kind lower upper).check name with
  | .ok () => .ok (r.declare name (.bounded kind lower upper))
  | .error e => .error e

/-- Creates an integer variable with bounds. -/
def createInteger (r : Registry) (name : String) (lower upper : Float) :
    Except ModelError (Variable × Registry) := r.create name .integer lower upper

/-- Creates a real variable with bounds. -/
def createReal (r : Registry) (name : String) (lower upper : Float) :
    Except ModelError (Variable × Registry) := r.create name .real lower upper

/-- Creates an integer variable without bounds. -/
def freeInteger (r : Registry) (name : String) : Variable × Registry :=
  r.declare name (.free .integer)

/-- Creates a real variable without bounds. -/
def freeReal (r : Registry) (name : String) : Variable × Registry :=
  r.declare name (.free .real)

/-- Creates a binary variable. -/
def binary (r : Registry) (name : String) : Variable × Registry := r.declare name .binary

/-- Changes what is known about a variable. -/
def update (r : Registry) (v : Variable) (f : Attributes → Attributes) : Registry :=
  ⟨r.entries.modify v.id f⟩

/-- Changes the kind, whatever the bounds are. -/
def setKind (r : Registry) (v : Variable) (kind : Kind) : Registry :=
  r.update v fun a => { a with kind }

/-- Changes the lower bound without a check. -/
def setLower (r : Registry) (v : Variable) (lower : Float) : Registry :=
  r.update v fun a => { a with lower }

/-- Changes the upper bound without a check. -/
def setUpper (r : Registry) (v : Variable) (upper : Float) : Registry :=
  r.update v fun a => { a with upper }

/-- Whether a value lies in a variable's domain. -/
def admits (r : Registry) (v : Variable) (value : Float) : Bool := (r.attributes v).admits value

/-- Replaces the start value by one that the variable admits, or by none. -/
def setStart (r : Registry) (v : Variable) (start : Option Float) : Except ModelError Registry :=
  match start with
  | none => .ok (r.update v fun a => { a with start := none })
  | some value =>
    if r.admits v value then .ok (r.update v fun a => { a with start := some value })
    else .error (.startOutsideDomain v.name value)

/-- Checks a variable's bounds against its kind. -/
def validate (r : Registry) (v : Variable) : Except ModelError Unit :=
  (r.attributes v).check v.name

theorem attributes_declare (r : Registry) (name : String) (a : Attributes) (v : Variable) :
    (r.declare name a).2.attributes v = if v.id = r.size then a else r.attributes v := by
  simp only [declare, attributes, size, Array.getElem?_push]
  split <;> simp_all

theorem attributes_update {r : Registry} {v : Variable} (h : v.id < r.size)
    (f : Attributes → Attributes) (w : Variable) :
    (r.update v f).attributes w = if w.id = v.id then f (r.attributes v) else r.attributes w := by
  simp only [update, attributes, Array.getElem?_modify]
  by_cases hw : v.id = w.id
  · have hlt : w.id < r.entries.size := hw ▸ h
    simp [hw, Array.getElem?_eq_getElem hlt]
  · rw [if_neg hw, if_neg fun e => hw e.symm]

end Registry

end LinearProgram
