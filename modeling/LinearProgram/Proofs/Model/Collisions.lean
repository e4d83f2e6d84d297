import LinearProgram.VariableSet

/-!
# `LinearProgram.Proofs.Model.Collisions`: two variables of one name

A set holds one variable for each name. Another variable of a name that
is there cannot be inserted: the two collide. An extension meets the
first collision and stops; a check looks for one beforehand and changes
nothing.

* `insert_cases`, `extend_stops` and `check_stops` say all that the three
  functions can do. What an extension leaves is the set with what came
  before the collision.
* `IsVerdict` says what an answer tells about the names on which two sets
  disagree: that there is none, or which of them is the first. There is
  only one such answer (`IsVerdict.unique`), and check and extension give
  it (`check_isVerdict`, `extend_isVerdict`).

`check_foretells_extend` sums up: two sets can be joined exactly if the
check says so, from either side, and the join is what it should be.
-/

set_option autoImplicit false

namespace LinearProgram.VariableSet

/-! ### Insertion -/

theorem mem_put {s : VariableSet} {v : Variable} (hnone : s.get? v.name = none) (w : Variable) :
    w ∈ s.put v ↔ w ∈ s ∨ w = v := by
  rw [mem_iff, get?_put, mem_iff]
  by_cases hname : w.name = v.name
  · rw [if_pos hname, hname, hnone]
    constructor
    · intro h
      exact .inr (Option.some.inj h).symm
    · intro h
      rcases h with h | h
      · cases h
      · rw [h]
  · rw [if_neg hname]
    constructor
    · exact .inl
    · intro h
      rcases h with h | h
      · exact h
      · exact absurd (congrArg Variable.name h) hname

/-- An insertion adds the variable, or there is another one of its name. -/
theorem insert_cases (s : VariableSet) (v : Variable) :
    (∃ isNew s', s.insert v = .ok (isNew, s') ∧ ∀ w, w ∈ s' ↔ w ∈ s ∨ w = v)
      ∨ (s.insert v = .error (.nameCollision v.name) ∧ ∃ w ∈ s, w ≠ v ∧ w.name = v.name) := by
  cases hget : s.get? v.name with
  | none =>
      refine .inl ⟨true, s.put v, ?_, mem_put hget⟩
      simp only [insert, hget]
  | some u =>
      have hname : u.name = v.name := s.keyed v.name u hget
      have hu : u ∈ s := by
        rw [mem_iff, hname]
        exact hget
      by_cases huv : u = v
      · refine .inl ⟨false, s, ?_, ?_⟩
        · simp only [insert, hget, if_pos huv]
        · intro w
          constructor
          · exact .inl
          · intro h
            rcases h with h | h
            · exact h
            · rw [h, ← huv]
              exact hu
      · refine .inr ⟨?_, u, hu, huv, hname⟩
        simp only [insert, hget, if_neg huv]

/-- Variables of a set that share a name are the same. -/
theorem eq_of_name_eq {s : VariableSet} {v w : Variable} (hv : v ∈ s) (hw : w ∈ s)
    (h : v.name = w.name) : v = w := by
  rw [mem_iff] at hv hw
  rw [h, hw] at hv
  exact (Option.some.inj hv).symm

theorem not_mem_empty (v : Variable) : ¬ v ∈ (∅ : VariableSet) := by
  intro h
  cases h

/-! ### Extension -/

/-- Whether another variable of a set, or of those listed, has the name of
this one. -/
def Collides (s : VariableSet) (listed : List Variable) (v : Variable) : Prop :=
  ∃ w, (w ∈ s ∨ w ∈ listed) ∧ w ≠ v ∧ w.name = v.name

/-- An extension adds all variables, or those before the first one that
collides with the set as it is by then. -/
theorem extend_stops (s : VariableSet) (vars : List Variable) :
    (∃ s', s.extend vars = (.ok (), s') ∧ ∀ w, w ∈ s' ↔ w ∈ s ∨ w ∈ vars)
      ∨ ∃ before v behind s', vars = before ++ v :: behind
        ∧ s.extend vars = (.error (.nameCollision v.name), s')
        ∧ (∀ w, w ∈ s' ↔ w ∈ s ∨ w ∈ before) ∧ s.Collides before v := by
  induction vars generalizing s with
  | nil => exact .inl ⟨s, rfl, by simp⟩
  | cons v rest ih =>
      rcases s.insert_cases v with ⟨isNew, s₁, hinsert, hmem⟩ | ⟨hinsert, w, hw, hne, hname⟩
      · have hstep : s.extend (v :: rest) = s₁.extend rest := by rw [extend, hinsert]
        have hgrown : ∀ w listed, w ∈ s₁ ∨ w ∈ listed ↔ w ∈ s ∨ w ∈ v :: listed := by
          intro w listed
          rw [hmem, List.mem_cons, or_assoc]
        rw [hstep]
        rcases ih s₁ with ⟨s', heq, hall⟩
          | ⟨before, u, behind, s', rfl, heq, hbefore, w, hw, hother⟩
        · exact .inl ⟨s', heq, fun w => (hall w).trans (hgrown w rest)⟩
        · exact .inr ⟨v :: before, u, behind, s', rfl, heq,
            fun w => (hbefore w).trans (hgrown w before), w, (hgrown w before).mp hw, hother⟩
      · refine .inr ⟨[], v, rest, s, rfl, ?_, by simp, w, .inl hw, hne, hname⟩
        rw [extend, hinsert]

/-- An extension adds all variables, or it meets two of one name. -/
theorem extend_cases (s : VariableSet) (vars : List Variable) :
    (∃ s', s.extend vars = (.ok (), s') ∧ ∀ w, w ∈ s' ↔ w ∈ s ∨ w ∈ vars)
      ∨ ∃ s' v w, s.extend vars = (.error (.nameCollision v.name), s') ∧ v ∈ vars
        ∧ (w ∈ s ∨ w ∈ vars) ∧ w ≠ v ∧ w.name = v.name := by
  rcases s.extend_stops vars with hall | ⟨before, v, behind, s', rfl, heq, _, w, hw, hne, hname⟩
  · exact .inl hall
  · exact .inr ⟨s', v, w, heq, List.mem_append_cons_self, hw.imp_right (List.mem_append_left _),
      hne, hname⟩

/-- A set of listed variables holds these, or two of them share a name. -/
theorem ofList_cases (vars : List Variable) :
    (∃ s, ofList vars = .ok s ∧ ∀ w, w ∈ s ↔ w ∈ vars)
      ∨ ∃ v w, ofList vars = .error (.nameCollision v.name) ∧ v ∈ vars ∧ w ∈ vars ∧ w ≠ v
        ∧ w.name = v.name := by
  rcases extend_cases ∅ vars with ⟨s, heq, hmem⟩ | ⟨s, v, w, heq, hv, hw, hne, hname⟩
  · refine .inl ⟨s, ?_, fun w => ?_⟩
    · rw [ofList, heq]
    · rw [hmem]
      simp [not_mem_empty]
  · refine .inr ⟨v, w, ?_, hv, ?_, hne, hname⟩
    · rw [ofList, heq]
    · simpa [not_mem_empty] using hw

/-! ### The check -/

/-- A check passes if no variable collides with the set, and otherwise
names the first that does. -/
theorem check_stops (s : VariableSet) (vars : List Variable) :
    (s.check vars = .ok () ∧ ∀ v ∈ vars, ¬ s.Collides [] v)
      ∨ ∃ before v behind, vars = before ++ v :: behind
        ∧ s.check vars = .error (.nameCollision v.name)
        ∧ (∀ u ∈ before, ¬ s.Collides [] u) ∧ s.Collides [] v := by
  induction vars with
  | nil => exact .inl ⟨rfl, nofun⟩
  | cons v rest ih =>
      by_cases hcollides : s.Collides [] v
      · refine .inr ⟨[], v, rest, rfl, ?_, nofun, hcollides⟩
        obtain ⟨w, hw, hne, hname⟩ := hcollides
        have hget : s.get? v.name = some w := hname ▸ mem_iff.mp (hw.resolve_right List.not_mem_nil)
        simp only [check, hget, if_neg hne]
      · have hstep : s.check (v :: rest) = s.check rest := by
          cases hget : s.get? v.name with
          | none => simp only [check, hget]
          | some w =>
              have hname : w.name = v.name := s.keyed v.name w hget
              have hw : w ∈ s := by
                rw [mem_iff, hname]
                exact hget
              have heq : w = v := Decidable.byContradiction fun hne =>
                hcollides ⟨w, .inl hw, hne, hname⟩
              simp only [check, hget, if_pos heq]
        rw [hstep]
        rcases ih with ⟨heq, hnone⟩ | ⟨before, u, behind, rfl, heq, hnone, hu⟩
        · exact .inl ⟨heq, List.forall_mem_cons.mpr ⟨hcollides, hnone⟩⟩
        · exact .inr ⟨v :: before, u, behind, rfl, heq,
            List.forall_mem_cons.mpr ⟨hcollides, hnone⟩, hu⟩

/-- Variables pass the check, or one of them meets another of its name. -/
theorem check_cases (s : VariableSet) (vars : List Variable) :
    (s.check vars = .ok () ∧ ∀ v ∈ vars, ∀ w ∈ s, w.name = v.name → w = v)
      ∨ ∃ v ∈ vars, ∃ w ∈ s, s.check vars = .error (.nameCollision v.name) ∧ w ≠ v
        ∧ w.name = v.name := by
  rcases s.check_stops vars with ⟨heq, hnone⟩ | ⟨before, v, behind, rfl, heq, _, w, hw, hne, hname⟩
  · refine .inl ⟨heq, fun v hv w hw hname => Decidable.byContradiction fun hne => ?_⟩
    exact hnone v hv ⟨w, .inl hw, hne, hname⟩
  · exact .inr ⟨v, List.mem_append_cons_self, w, hw.resolve_right List.not_mem_nil, heq, hne, hname⟩

/-! ### Two sets -/

/-- A set that agrees with another on names can be joined to it. -/
theorem extend_of_agree {s own : VariableSet}
    (h : ∀ v ∈ own.toList, ∀ w ∈ s, w.name = v.name → w = v) :
    ∃ all, s.extend own.toList = (.ok (), all) ∧ ∀ v, v ∈ all ↔ v ∈ s ∨ v ∈ own.toList := by
  rcases s.extend_cases own.toList with hall | ⟨_, v, w, _, hv, hw, hne, hname⟩
  · exact hall
  · rcases hw with hw | hw
    · exact absurd (h v hv w hw hname) hne
    · have hv := mem_toList_iff.mp hv
      have hw := mem_toList_iff.mp hw
      exact absurd (eq_of_name_eq hw hv hname) hne

/-- Whether a name stands for a variable of one set and for another one of
the other set. -/
def Contests (s o : VariableSet) (name : String) : Prop :=
  ∃ v ∈ s, ∃ w ∈ o, v ≠ w ∧ v.name = name ∧ w.name = name

theorem contests_comm {s o : VariableSet} {name : String} :
    s.Contests o name ↔ o.Contests s name := by
  constructor
  · rintro ⟨v, hv, w, hw, hne, hvname, hwname⟩
    exact ⟨w, hw, v, hv, hne.symm, hwname, hvname⟩
  · rintro ⟨v, hv, w, hw, hne, hvname, hwname⟩
    exact ⟨w, hw, v, hv, hne.symm, hwname, hvname⟩

/-- Whether an answer is right about contested names: none is contested, or
a collision on the first that is. -/
def IsVerdict (contested : String → Prop) : Except ModelError Unit → Prop
  | .ok () => ∀ name, ¬ contested name
  | .error e => ∃ name, e = .nameCollision name ∧ contested name
      ∧ ∀ other, contested other → name ≤ other

theorem IsVerdict.unique {contested : String → Prop} {answer answer' : Except ModelError Unit}
    (h : IsVerdict contested answer) (h' : IsVerdict contested answer') : answer = answer' := by
  match answer, answer' with
  | .ok (), .ok () => rfl
  | .ok (), .error _ =>
      obtain ⟨name, _, hname, _⟩ := h'
      exact absurd hname (h name)
  | .error _, .ok () =>
      obtain ⟨name, _, hname, _⟩ := h
      exact absurd hname (h' name)
  | .error _, .error _ =>
      obtain ⟨name, rfl, hname, hfirst⟩ := h
      obtain ⟨name', rfl, hname', hfirst'⟩ := h'
      rw [String.le_antisymm (hfirst name' hname') (hfirst' name hname)]

/-- In a listing of a set, names come in their order. -/
theorem name_le_of_split {o : VariableSet} {before behind : List Variable} {v w : Variable}
    (hlist : o.toList = before ++ v :: behind) (hw : w ∈ o) (hbefore : w ∉ before) :
    v.name ≤ w.name := by
  have hordered := o.pairwise_toList
  rw [hlist, List.pairwise_append, List.pairwise_cons] at hordered
  have hmem : w ∈ before ++ v :: behind := hlist ▸ mem_toList_iff.mpr hw
  rcases List.mem_cons.mp ((List.mem_append.mp hmem).resolve_left hbefore) with rfl | hbehind
  · exact String.le_refl _
  · exact String.not_lt.mp (String.lt_asymm (hordered.2.1.1 w hbehind))

theorem check_isVerdict (s o : VariableSet) : IsVerdict (s.Contests o) (s.check o.toList) := by
  rcases s.check_stops o.toList with ⟨heq, hnone⟩ | ⟨before, v, behind, hlist, heq, hnone, hfirst⟩
  · rw [heq]
    rintro name ⟨v, hv, w, hw, hne, rfl, hname⟩
    exact hnone w (mem_toList_iff.mpr hw) ⟨v, .inl hv, hne, hname.symm⟩
  · have hv : v ∈ o := mem_toList_iff.mp (hlist ▸ List.mem_append_cons_self)
    obtain ⟨u, hu, hne, hname⟩ := hfirst
    rw [heq]
    refine ⟨v.name, rfl, ⟨u, hu.resolve_right List.not_mem_nil, v, hv, hne, hname, rfl⟩, ?_⟩
    rintro _ ⟨a, ha, b, hb, hab, habname, rfl⟩
    exact name_le_of_split hlist hb fun hbefore => hnone b hbefore ⟨a, .inl ha, hab, habname⟩

theorem extend_isVerdict (s o : VariableSet) :
    IsVerdict (s.Contests o) (s.extend o.toList).1 := by
  rcases s.extend_stops o.toList with ⟨s', heq, hall⟩
    | ⟨before, v, behind, s', hlist, heq, hbefore, u, hu, hne, hname⟩
  · rw [heq]
    rintro name ⟨v, hv, w, hw, hne, rfl, hname⟩
    exact hne (eq_of_name_eq ((hall v).mpr (.inl hv))
      ((hall w).mpr (.inr (mem_toList_iff.mpr hw))) hname.symm)
  · have hv : v ∈ o := mem_toList_iff.mp (hlist ▸ List.mem_append_cons_self)
    -- No two variables that are listed share a name, so the other one is in the set.
    have hus : u ∈ s := by
      refine hu.resolve_right fun hlisted => hne ?_
      have huo : u ∈ o := mem_toList_iff.mp (hlist ▸ List.mem_append_left _ hlisted)
      exact eq_of_name_eq huo hv hname
    rw [heq]
    refine ⟨v.name, rfl, ⟨u, hus, v, hv, hne, hname, rfl⟩, ?_⟩
    rintro _ ⟨a, ha, b, hb, hab, habname, rfl⟩
    refine name_le_of_split hlist hb fun hlisted => hab ?_
    exact eq_of_name_eq ((hbefore a).mpr (.inl ha)) ((hbefore b).mpr (.inr hlisted)) habname

/-- Whether a set holds exactly the variables of another one and those
listed, one for each name and in the order of names, and finds each. -/
structure IsJoin (joined s : VariableSet) (listed : List Variable) : Prop where
  mem : ∀ v, v ∈ joined.toList ↔ v ∈ s.toList ∨ v ∈ listed
  ordered : joined.toList.Pairwise fun v w => v.name < w.name
  contains : ∀ v, joined.contains v = true ↔ v ∈ s.toList ∨ v ∈ listed

theorem isJoin_of_mem {joined s : VariableSet} {listed : List Variable}
    (h : ∀ v, v ∈ joined ↔ v ∈ s ∨ v ∈ listed) : joined.IsJoin s listed := by
  refine ⟨fun v => ?_, joined.pairwise_toList, fun v => ?_⟩
  · rw [mem_toList_iff, mem_toList_iff, h]
  · rw [contains_iff, mem_toList_iff, h]

/-- The check of one set against another, either way round, and the
extension by it give one answer: the first name on which the sets
disagree, or that there is none. If there is none, the extended set is the
join. An extension by any list stops only at a variable that collides, and
leaves the join with those before it, of which none collided. -/
theorem check_foretells_extend (s o : VariableSet) :
    IsVerdict (s.Contests o) (s.check o.toList)
      ∧ (s.extend o.toList).1 = s.check o.toList
      ∧ o.check s.toList = s.check o.toList
      ∧ ((s.extend o.toList).1 = .ok () → (s.extend o.toList).2.IsJoin s o.toList)
      ∧ ∀ (vars : List Variable) (e : ModelError) (left : VariableSet),
          s.extend vars = (.error e, left) →
            ∃ before v behind, vars = before ++ v :: behind ∧ e = .nameCollision v.name
              ∧ s.Collides before v ∧ (∀ u ∈ before, ¬ s.Collides before u)
              ∧ left.IsJoin s before := by
  have hother : IsVerdict (s.Contests o) (o.check s.toList) := by
    rw [show s.Contests o = o.Contests s from funext fun _ => propext contests_comm]
    exact o.check_isVerdict s
  refine ⟨s.check_isVerdict o, (s.extend_isVerdict o).unique (s.check_isVerdict o),
    hother.unique (s.check_isVerdict o), fun hok => ?_, fun vars e left herror => ?_⟩
  · rcases s.extend_stops o.toList with ⟨s', heq, hall⟩ | ⟨_, _, _, _, _, heq, _⟩
    · rw [heq]
      exact isJoin_of_mem hall
    · rw [heq] at hok
      cases hok
  · rcases s.extend_stops vars with ⟨_, heq, _⟩ | ⟨before, v, behind, s', hlist, heq, hmem, hv⟩
    · rw [herror] at heq
      cases heq
    · rw [herror] at heq
      cases heq
      refine ⟨before, v, behind, hlist, rfl, hv, fun u hu hcollides => ?_, isJoin_of_mem hmem⟩
      obtain ⟨w, hw, hne, hname⟩ := hcollides
      exact hne (eq_of_name_eq ((hmem w).mpr hw) ((hmem u).mpr (.inr hu)) hname)

/-- A set of two variables. -/
def stocked : VariableSet := (put ∅ ⟨0, "x"⟩).put ⟨1, "y"⟩

/-- A set that shares one of them. -/
def wanted : VariableSet := (put ∅ ⟨1, "y"⟩).put ⟨2, "a"⟩

/-- The sets can be joined, and a list with another variable `y` is taken
up to that one. -/
theorem stocked_extended :
    (stocked.extend wanted.toList).1 = .ok ()
      ∧ (stocked.extend wanted.toList).2.IsJoin stocked wanted.toList
      ∧ wanted.check stocked.toList = .ok ()
      ∧ (stocked.extend [⟨2, "a"⟩, ⟨3, "y"⟩, ⟨4, "b"⟩]).1 = .error (.nameCollision "y")
      ∧ (stocked.extend [⟨2, "a"⟩, ⟨3, "y"⟩, ⟨4, "b"⟩]).2.IsJoin stocked [⟨2, "a"⟩] := by
  obtain ⟨-, hextend, hother, hjoin, hstops⟩ := check_foretells_extend stocked wanted
  have hok : (stocked.extend wanted.toList).1 = .ok () := rfl
  have herror : (stocked.extend [⟨2, "a"⟩, ⟨3, "y"⟩, ⟨4, "b"⟩]).1
      = .error (.nameCollision "y") := rfl
  refine ⟨hok, hjoin hok, hother.trans (hextend.symm.trans hok), herror, ?_⟩
  obtain ⟨before, v, behind, hlist, hname, _, _, hleft⟩ := hstops _ _ _ (Prod.ext herror rfl)
  -- Only the second of the three is called `y`.
  match before with
  | [] =>
      cases hlist
      exact absurd (ModelError.nameCollision.inj hname) (by decide)
  | [_] =>
      cases hlist
      exact hleft
  | [_, _] =>
      cases hlist
      exact absurd (ModelError.nameCollision.inj hname) (by decide)
  | _ :: _ :: _ :: _ => simp at hlist

end LinearProgram.VariableSet
