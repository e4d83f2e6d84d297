import LinearProgram.Proofs.Model.Meaning

/-!
# `LinearProgram.Proofs.Model.Ranges`: the ways to make a range

A range is made at once, or of a constraint with one bound by adding the
other bound, on the right (`chain`) or on the left (`chainLeft`).

* `chain_left` and `chainLeft_right`: the three ways come to the same,
  errors included. An equation forgets on which side its bound stood, but
  it makes no range from either side, and the error names the relations
  in the order in which they were written.
* `Shape.chain_eq_ok_iff` and `Shape.chainLeft_eq_ok_iff`: only a bound on
  the other side can be extended. Nothing but the shape changes
  (`of_reshape`).
* A range says what its two halves say (`holds_exact_chain`,
  `holds_exact_chainLeft`).

`ranges_agree` sums up.
-/

set_option autoImplicit false

namespace LinearProgram

open Binary64 (extended)

theorem Relation.enclosesWith_iff_sameDirection {l r : Relation} : l.enclosesWith r = true
    ↔ l = .atMost ∧ r = .atMost ∨ l = .atLeast ∧ r = .atLeast := by
  cases l <;> cases r <;> decide

variable {K : Type}

namespace Shape

/-! ### One bound -/

section

variable {r : Relation} {b y : K}

theorem encloses_ofLeft [LE K] : (ofLeft b r).Encloses y ↔ r.Holds b y := by
  cases r with
  | atMost => exact Iff.rfl
  | equal => exact eq_comm
  | atLeast => exact Iff.rfl

theorem encloses_ofRight [LE K] : (ofRight r b).Encloses y ↔ r.Holds y b := by
  cases r <;> exact Iff.rfl

theorem map_ofLeft {L : Type} (f : K → L) : (ofLeft b r).map f = ofLeft (f b) r := by
  cases r <;> rfl

theorem map_ofRight {L : Type} (f : K → L) : (ofRight r b).map f = ofRight r (f b) := by
  cases r <;> rfl

end

/-! ### Another bound -/

/-- An equation counts as one with its bound on the left. -/
theorem chain_ofLeft (lower : K) (l r : Relation) (upper : K) :
    (ofLeft lower l).chain r upper = ofRange lower l r upper := by
  cases l <;> rfl

/-- It counts as one with its bound on the right as well. -/
theorem chainLeft_ofRight (lower : K) (l r : Relation) (upper : K) :
    (ofRight r upper).chainLeft lower l = ofRange lower l r upper := by
  cases r <;> rfl

/-- An equation makes no range. -/
theorem chain_eq_ok_iff {shape shape' : Shape K} {r : Relation} {upper : K} :
    shape.chain r upper = .ok shape' ↔ ∃ lower l, shape = .left lower l
      ∧ l.enclosesWith r = true ∧ shape' = .range lower l r upper := by
  cases shape with
  | left lower l =>
      refine ofRange_eq_ok_iff.trans ⟨fun h => ⟨lower, l, rfl, h⟩, ?_⟩
      rintro ⟨_, _, ⟨⟩, h⟩
      exact h
  | right relation bound => exact ⟨fun h => (nomatch h), fun ⟨_, _, h, _⟩ => (nomatch h)⟩
  | equal bound =>
      -- Its relation is `=`, which encloses nothing.
      refine ⟨fun h => ?_, fun ⟨_, _, h, _⟩ => (nomatch h)⟩
      exact absurd rfl (Relation.enclosesWith_iff.mp (ofRange_eq_ok_iff.mp h).1).2
  | range lower l r' upper' => exact ⟨fun h => (nomatch h), fun ⟨_, _, h, _⟩ => (nomatch h)⟩

theorem chainLeft_eq_ok_iff {shape shape' : Shape K} {l : Relation} {lower : K} :
    shape.chainLeft lower l = .ok shape' ↔ ∃ r upper, shape = .right r upper
      ∧ l.enclosesWith r = true ∧ shape' = .range lower l r upper := by
  cases shape with
  | left bound relation => exact ⟨fun h => (nomatch h), fun ⟨_, _, h, _⟩ => (nomatch h)⟩
  | right r upper =>
      refine ofRange_eq_ok_iff.trans ⟨fun h => ⟨r, upper, rfl, h⟩, ?_⟩
      rintro ⟨_, _, ⟨⟩, h⟩
      exact h
  | equal bound =>
      refine ⟨fun h => ?_, fun ⟨_, _, h, _⟩ => (nomatch h)⟩
      have hrelations := (ofRange_eq_ok_iff.mp h).1
      rw [Relation.enclosesWith_comm] at hrelations
      exact absurd rfl (Relation.enclosesWith_iff.mp hrelations).2
  | range lower' l' r upper => exact ⟨fun h => (nomatch h), fun ⟨_, _, h, _⟩ => (nomatch h)⟩

end Shape

namespace Constraint

/-! ### Constraints -/

section

variable [Scalar K]

theorem chain_left (lower : K) (l : Relation) (t : Term K) (r : Relation) (upper : K) :
    (left lower l t).chain r upper = range lower l t r upper := by
  show ((Shape.ofLeft lower l).chain r upper).map _ = _
  rw [Shape.chain_ofLeft]
  rfl

theorem chainLeft_right (lower : K) (l : Relation) (t : Term K) (r : Relation) (upper : K) :
    chainLeft lower l (right t r upper) = range lower l t r upper := by
  show ((Shape.ofRight r upper).chainLeft lower l).map _ = _
  rw [Shape.chainLeft_ofRight]
  rfl

/-- Relations decide alone whether there is a range. -/
theorem exists_range_iff {lower upper : K} {l r : Relation} {t : Term K} :
    (∃ c, range lower l t r upper = .ok c) ↔ l.enclosesWith r = true := by
  constructor
  · rintro ⟨c, hc⟩
    obtain ⟨shape, hshape, -⟩ := map_eq_ok_iff.mp hc
    exact (Shape.ofRange_eq_ok_iff.mp hshape).1
  · intro h
    exact ⟨_, map_eq_ok_iff.mpr ⟨_, Shape.ofRange_eq_ok_iff.mpr ⟨h, rfl⟩, rfl⟩⟩

theorem eq_of_range_eq_error {lower upper : K} {l r : Relation} {t : Term K} {e : ModelError}
    (h : range lower l t r upper = .error e) : e = .incompatibleRelations l r := by
  rw [range, Shape.ofRange] at h
  split at h
  · cases h
  · cases h
    rfl

/-- A new shape, and the rest as it was. -/
theorem of_reshape {c c' : Constraint K} {f : Shape K → Except ModelError (Shape K)}
    (h : c.reshape f = .ok c') : f c.shape = .ok c'.shape ∧ c'.term = c.term
      ∧ c'.name = c.name ∧ c'.guard = c.guard := by
  obtain ⟨shape, hshape, rfl⟩ := map_eq_ok_iff.mp h
  cases c <;> exact ⟨hshape, rfl, rfl, rfl⟩

theorem reshape_eq_error {c : Constraint K} {e : ModelError}
    {f : Shape K → Except ModelError (Shape K)} (h : f c.shape = .error e) :
    c.reshape f = .error e := by
  rw [reshape, h]
  rfl

end

/-! ### What ranges say -/

section

variable {c c' : Constraint Float} {values : Valuation EReal}

theorem holds_exact_iff : c.exact.Holds values
    ↔ (c.shape.map extended).Encloses ((c.term.map extended).evaluate values) := by
  cases c <;> exact Iff.rfl

theorem holds_exact_left {bound : Float} {r : Relation} {t : Term Float} :
    (left bound r t).exact.Holds values
      ↔ r.Holds (extended bound) ((t.map extended).evaluate values) := by
  refine holds_exact_iff.trans ?_
  show ((Shape.ofLeft bound r).map extended).Encloses _ ↔ _
  rw [Shape.map_ofLeft]
  exact Shape.encloses_ofLeft

theorem holds_exact_right {bound : Float} {r : Relation} {t : Term Float} :
    (right t r bound).exact.Holds values
      ↔ r.Holds ((t.map extended).evaluate values) (extended bound) := by
  refine holds_exact_iff.trans ?_
  show ((Shape.ofRight r bound).map extended).Encloses _ ↔ _
  rw [Shape.map_ofRight]
  exact Shape.encloses_ofRight

/-- A bound on the right is a further condition. -/
theorem holds_exact_chain {r : Relation} {upper : Float} (h : c.chain r upper = .ok c') :
    c'.exact.Holds values ↔ c.exact.Holds values ∧ (right c.term r upper).exact.Holds values := by
  obtain ⟨hchain, hterm, -⟩ := of_reshape h
  obtain ⟨lower, l, hshape, -, hshape'⟩ := Shape.chain_eq_ok_iff.mp hchain
  rw [holds_exact_right, holds_exact_iff, holds_exact_iff, hshape, hshape', hterm]
  exact Iff.rfl

/-- So is a bound on the left. -/
theorem holds_exact_chainLeft {l : Relation} {lower : Float} (h : chainLeft lower l c = .ok c') :
    c'.exact.Holds values ↔ (left lower l c.term).exact.Holds values ∧ c.exact.Holds values := by
  obtain ⟨hchain, hterm, -⟩ := of_reshape h
  obtain ⟨r, upper, hshape, -, hshape'⟩ := Shape.chainLeft_eq_ok_iff.mp hchain
  rw [holds_exact_left, holds_exact_iff, holds_exact_iff, hshape, hshape', hterm]
  exact Iff.rfl

end

/-- The three ways to make a range of two bounds come to the same: a
constraint that says what both halves say if the relations are both `<=`
or both `>=`, and otherwise an error. Whatever constraint is extended, it
only gains a condition, and keeps its name and its guard; one that has a
bound in that place already is not extended. -/
theorem ranges_agree :
    (∀ (lower : Float) (l : Relation) (t : Term Float) (r : Relation) (upper : Float),
        (left lower l t).chain r upper = range lower l t r upper
          ∧ chainLeft lower l (right t r upper) = range lower l t r upper
          ∧ ((∃ c, range lower l t r upper = .ok c)
            ↔ l = .atMost ∧ r = .atMost ∨ l = .atLeast ∧ r = .atLeast)
          ∧ (∀ c, range lower l t r upper = .ok c → ∀ values, c.exact.Holds values
              ↔ (left lower l t).exact.Holds values ∧ (right t r upper).exact.Holds values)
          ∧ ∀ e, range lower l t r upper = .error e → e = .incompatibleRelations l r)
      ∧ (∀ (c c' : Constraint Float) (r : Relation) (upper : Float), c.chain r upper = .ok c' →
          c'.name = c.name ∧ c'.guard = c.guard ∧ c'.term = c.term
            ∧ ∀ values, c'.exact.Holds values
              ↔ c.exact.Holds values ∧ (right c.term r upper).exact.Holds values)
      ∧ (∀ (c c' : Constraint Float) (l : Relation) (lower : Float),
          chainLeft lower l c = .ok c' →
          c'.name = c.name ∧ c'.guard = c.guard ∧ c'.term = c.term
            ∧ ∀ values, c'.exact.Holds values
              ↔ (left lower l c.term).exact.Holds values ∧ c.exact.Holds values)
      ∧ ∀ (c : Constraint Float) (relation : Relation) (bound : Float),
        (∀ r upper, c.shape = .right r upper →
            c.chain relation bound = .error (.unchainable .termFirst))
          ∧ (∀ lower l, c.shape = .left lower l →
            chainLeft bound relation c = .error (.unchainable .boundFirst))
          ∧ ∀ lower l r upper, c.shape = .range lower l r upper →
            c.chain relation bound = .error (.unchainable .threeSided)
              ∧ chainLeft bound relation c = .error (.unchainable .threeSided) := by
  refine ⟨fun lower l t r upper => ⟨chain_left .., chainLeft_right .., ?_, fun c hc values => ?_,
      fun e => eq_of_range_eq_error⟩, fun c c' r upper h => ?_, fun c c' l lower h => ?_,
    fun c relation bound => ⟨fun r upper h => ?_, fun lower l h => ?_,
      fun lower l r upper h => ⟨?_, ?_⟩⟩⟩
  · exact exists_range_iff.trans Relation.enclosesWith_iff_sameDirection
  · rw [← chain_left] at hc
    exact holds_exact_chain hc
  · obtain ⟨-, hterm, hname, hguard⟩ := of_reshape h
    exact ⟨hname, hguard, hterm, fun values => holds_exact_chain h⟩
  · obtain ⟨-, hterm, hname, hguard⟩ := of_reshape h
    exact ⟨hname, hguard, hterm, fun values => holds_exact_chainLeft h⟩
  · exact reshape_eq_error (congrArg (Shape.chain relation bound) h)
  · exact reshape_eq_error (congrArg (Shape.chainLeft bound relation) h)
  · exact reshape_eq_error (congrArg (Shape.chain relation bound) h)
  · exact reshape_eq_error (congrArg (Shape.chainLeft bound relation) h)

theorem chain_guardedFloor : ∃ c, guardedFloor.chain .atMost 20 = .ok c
    ∧ c.name = some "floor" ∧ c.guard = guardedFloor.guard
    ∧ ∀ values, c.exact.Holds values
      ↔ guardedFloor.exact.Holds values
        ∧ (right guardedFloor.term .atMost 20).exact.Holds values := by
  have h : guardedFloor.chain .atMost 20
      = .ok (guardedFloor.mapRow fun row => { row with shape := .range 10 .atMost .atMost 20 }) :=
    rfl
  obtain ⟨hname, hguard, -, hholds⟩ := ranges_agree.2.1 _ _ _ _ h
  exact ⟨_, h, hname, hguard, hholds⟩

end Constraint

end LinearProgram
