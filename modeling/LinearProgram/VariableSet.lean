import LinearProgram.Variable

/-!
# `LinearProgram.VariableSet`: variables by name

A set of variables in which a name stands for one variable. Inserting a
second variable of a name is an error, and inserting a variable that is
there changes nothing.

* `check` is the test beforehand, `extend` the insertion of several: it
  stops at the first collision and keeps what came before.
* `mem_toList_iff` ties the listing, which is ordered by name, to
  membership.
-/

set_option autoImplicit false

namespace LinearProgram

/-- Variables with different names, each filed under its own. -/
structure VariableSet where
  byName : OrderedMap String Variable
  keyed : ∀ name v, byName.get? name = some v → v.name = name

namespace VariableSet

/-- The set without variables. -/
def empty : VariableSet := ⟨∅, fun _ _ h => by simp at h⟩

instance : EmptyCollection VariableSet := ⟨empty⟩
instance : Inhabited VariableSet := ⟨empty⟩

/-- The variable of a name. -/
def get? (s : VariableSet) (name : String) : Option Variable := s.byName.get? name

/-- Whether this very variable is in the set. -/
def contains (s : VariableSet) (v : Variable) : Bool := s.get? v.name == some v

instance : Membership Variable VariableSet := ⟨fun s v => s.get? v.name = some v⟩

/-- The variables in the order of their names. -/
def toList (s : VariableSet) : List Variable := s.byName.values

/-- The names, ascending. -/
def names (s : VariableSet) : List String := s.byName.keys

/-- How many variables there are. -/
def size (s : VariableSet) : Nat := s.byName.size

/-- Whether there are none. -/
def isEmpty (s : VariableSet) : Bool := s.byName.isEmpty

instance : BEq VariableSet := ⟨fun s t => s.byName == t.byName⟩

/-- Files a variable under its name, in place of an earlier one. -/
def put (s : VariableSet) (v : Variable) : VariableSet :=
  ⟨s.byName.insert v.name v, fun name w h => by
    rw [OrderedMap.get?_insert] at h
    split at h
    · simp_all
    · exact s.keyed name w h⟩

/-- Adds a variable, and says whether it is new. Another variable of
the same name is a collision. -/
def insert (s : VariableSet) (v : Variable) : Except ModelError (Bool × VariableSet) :=
  match s.get? v.name with
  | none => .ok (true, s.put v)
  | some w => if w = v then .ok (false, s) else .error (.nameCollision v.name)

/-- Adds variables one after another, up to the first collision. -/
def extend (s : VariableSet) : List Variable → Except ModelError Unit × VariableSet
  | [] => (.ok (), s)
  | v :: rest =>
    match s.insert v with
    | .ok (_, s') => s'.extend rest
    | .error e => (.error e, s)

/-- Whether a variable of the list collides with one of the set. -/
def check (s : VariableSet) : List Variable → Except ModelError Unit
  | [] => .ok ()
  | v :: rest =>
    match s.get? v.name with
    | some w => if w = v then s.check rest else .error (.nameCollision v.name)
    | none => s.check rest

/-- The set of the given variables, which must have different names. -/
def ofList (vars : List Variable) : Except ModelError VariableSet :=
  match (∅ : VariableSet).extend vars with
  | (.ok (), s) => .ok s
  | (.error e, _) => .error e

theorem mem_iff {s : VariableSet} {v : Variable} : v ∈ s ↔ s.get? v.name = some v := Iff.rfl

theorem contains_iff {s : VariableSet} {v : Variable} : s.contains v = true ↔ v ∈ s := by
  simp [contains, mem_iff]

theorem mem_toList_iff {s : VariableSet} {v : Variable} : v ∈ s.toList ↔ v ∈ s := by
  simp only [toList, OrderedMap.values, List.mem_map, Prod.exists, exists_eq_right, mem_iff, get?]
  constructor
  · rintro ⟨name, h⟩
    have h := OrderedMap.mem_toList_iff.mp h
    rwa [s.keyed name v h]
  · exact fun h => ⟨v.name, OrderedMap.mem_toList_iff.mpr h⟩

/-- The listing is in the order of the names. -/
theorem pairwise_toList (s : VariableSet) : s.toList.Pairwise fun v w => v.name < w.name := by
  have hkeyed : ∀ p ∈ s.byName.toList, p.2.name = p.1 := fun p hp =>
    s.keyed p.1 p.2 (OrderedMap.mem_toList_iff.mp hp)
  refine List.pairwise_map.mpr (s.byName.ascending.imp_of_mem fun hp hq hlt => ?_)
  rwa [hkeyed _ hp, hkeyed _ hq]

theorem get?_put (s : VariableSet) (v : Variable) (name : String) :
    (s.put v).get? name = if name = v.name then some v else s.get? name :=
  OrderedMap.get?_insert ..

end VariableSet

end LinearProgram
