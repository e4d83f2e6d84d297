import LinearProgram.Proofs.LpText.Sections
import LinearProgram.Proofs.LpText.Unambiguous.Constraints

/-!
# `LinearProgram.Proofs.LpText.Unambiguous.Domains`: kinds and bounds have one meaning

The last sections of a written model say of the variables which kinds
and bounds they have. If two models say the same there, then variables
of one name have the same kind (`kind_eq_of_names`) and, as numbers, the
same bounds (`bounds_eq_of_words`).

The words of bounds are known from their number and from where the name
stands among them (`boundsForm_of_words`, `boundsWords?_inj`).
-/

set_option autoImplicit false

namespace LinearProgram

open Decimal (plain)

namespace LpText

/-! ### Bounds -/

/-- A number other than infinity is not written like a name. -/
theorem not_isName_plain {x : Float} (hnan : x.isNaN = false) (hinf : x ≠ Binary64.infinity) :
    isName (plain x).toList = false := by
  rw [Decimal.plain_toList hnan]
  cases hneg : Binary64.isNegative x with
  | true =>
      rw [if_pos rfl, isName, show isNameStart '-' = false from by decide, Bool.false_and]
  | false =>
      rw [if_neg Bool.false_ne_true]
      have hle := Binary64.code_le_of_isNaN hnan
      have hcode : Binary64.code x ≠ Binary64.infinityCode := by
        intro hcode
        have hx := Binary64.ofCode_code hle
        rw [hneg, hcode] at hx
        exact hinf hx.symm
      obtain ⟨⟨c, rest, htext, hdigit⟩, _⟩ := Decimal.numeral_unsignedText hcode
      exact IsSignedNumeral.not_isName ⟨c, rest, .inl htext, hdigit⟩

/-- The four forms in which bounds are written. -/
inductive BoundsForm (name : String) (lower upper : Float) : List (List Char) → Prop where
  | free (hlower : lower = -Binary64.infinity) (hupper : upper = Binary64.infinity) :
    BoundsForm name lower upper [name.toList, ['F', 'R', 'E', 'E']]
  | upperOnly (hlower : (lower == 0) = true) (hupper : upper ≠ Binary64.infinity) :
    BoundsForm name lower upper [name.toList, ['<', '='], (plain upper).toList]
  | lowerOnly (hupper : upper = Binary64.infinity) :
    BoundsForm name lower upper [(plain lower).toList, ['<', '='], name.toList]
  | both :
    BoundsForm name lower upper
      [(plain lower).toList, ['<', '='], name.toList, ['<', '='], (plain upper).toList]

theorem neg_infinity_eq : -Binary64.infinity = Binary64.ofCode true Binary64.infinityCode := by
  rw [Binary64.infinity, Binary64.neg_ofCode false (Nat.le_refl _)]
  rfl

theorem boundsForm_of_words {name : String} {lower upper : Float} {ws : List (List Char)}
    (h : boundsWords? name lower upper = some ws) : BoundsForm name lower upper ws := by
  have hinf : ∀ {x : Float}, (x == Binary64.infinity) = true ↔ x = Binary64.infinity :=
    Binary64.beq_infinity_iff false
  unfold boundsWords? at h
  split at h
  · cases h
  rename_i hdefault
  split at h
  · rename_i hfree
    cases h
    rw [Bool.and_eq_true, hinf, neg_infinity_eq, Binary64.beq_infinity_iff true] at hfree
    exact .free (neg_infinity_eq ▸ hfree.1) hfree.2
  split at h
  · rename_i hzero
    cases h
    refine .upperOnly hzero fun hupper => hdefault ?_
    rw [hzero, hinf.mpr hupper]
    rfl
  split at h
  · rename_i hupper
    cases h
    exact .lowerOnly (hinf.mp hupper)
  · cases h
    exact .both

/-- The name and, as numbers, the bounds are known from their words. -/
theorem boundsWords?_inj {n m : String} {l u l' u' : Float} {ws : List (List Char)}
    (hn : isName n.toList = true) (hm : isName m.toList = true) (hl : l.isNaN = false)
    (hu : u.isNaN = false) (hl' : l'.isNaN = false) (hu' : u'.isNaN = false)
    (h : boundsWords? n l u = some ws) (h' : boundsWords? m l' u' = some ws) :
    n = m ∧ (l == l') = true ∧ (u == u') = true := by
  have hself : ∀ {x y : Float}, x.isNaN = false → x = y → (x == y) = true := by
    rintro x y hx rfl
    refine Binary64.beq_self (Nat.not_lt.mp fun hlt => ?_)
    rw [Binary64.isNaN_iff.mpr hlt] at hx
    cases hx
  have hzero : ∀ {x y : Float}, (x == 0) = true → (y == 0) = true → (x == y) = true := by
    intro x y hx hy
    rw [Binary64.beq_zero_iff] at hx hy
    exact Binary64.beq_iff.mpr ⟨hx ▸ Nat.zero_le _, hy ▸ Nat.zero_le _, .inr ⟨hx, hy⟩⟩
  -- Where a bound stands against a name, it is not infinity.
  have hclash : ∀ {x : Float} {name : String}, x.isNaN = false → x ≠ Binary64.infinity →
      isName name.toList = true → name.toList ≠ (plain x).toList := by
    intro x name hx hinf hname heq
    have hnot := not_isName_plain hx hinf
    rw [← heq, hname] at hnot
    cases hnot
  generalize hws : ws = vs at h'
  cases boundsForm_of_words h with
  | free hlower hupper =>
      cases boundsForm_of_words h' with
      | free hlower' hupper' =>
          refine ⟨String.toList_injective (List.cons.inj hws).1, hself hl ?_, hself hu ?_⟩
          · rw [hlower, hlower']
          · rw [hupper, hupper']
      | upperOnly _ _ => cases congrArg List.length hws
      | lowerOnly _ => cases congrArg List.length hws
      | both => cases congrArg List.length hws
  | upperOnly hlower hupper =>
      cases boundsForm_of_words h' with
      | free _ _ => cases congrArg List.length hws
      | upperOnly hlower' _ =>
          obtain ⟨hname, htail⟩ := List.cons.inj hws
          have hvalue := (List.cons.inj (List.cons.inj htail).2).1
          exact ⟨String.toList_injective hname, hzero hlower hlower',
            hself hu (Shape.plain_toList_inj hu hu' hvalue)⟩
      | lowerOnly _ =>
          have hvalue := (List.cons.inj (List.cons.inj (List.cons.inj hws).2).2).1
          exact absurd hvalue.symm (hclash hu hupper hm)
      | both => cases congrArg List.length hws
  | lowerOnly hupper =>
      cases boundsForm_of_words h' with
      | free _ _ => cases congrArg List.length hws
      | upperOnly _ hupper' =>
          have hvalue := (List.cons.inj (List.cons.inj (List.cons.inj hws).2).2).1
          exact absurd hvalue (hclash hu' hupper' hn)
      | lowerOnly hupper' =>
          obtain ⟨hvalue, htail⟩ := List.cons.inj hws
          have hname := (List.cons.inj (List.cons.inj htail).2).1
          refine ⟨String.toList_injective hname,
            hself hl (Shape.plain_toList_inj hl hl' hvalue), hself hu ?_⟩
          rw [hupper, hupper']
      | both => cases congrArg List.length hws
  | both =>
      cases boundsForm_of_words h' with
      | free _ _ => cases congrArg List.length hws
      | upperOnly _ _ => cases congrArg List.length hws
      | lowerOnly _ => cases congrArg List.length hws
      | both =>
          obtain ⟨hlower, htail⟩ := List.cons.inj hws
          obtain ⟨hname, htail⟩ := List.cons.inj (List.cons.inj htail).2
          have hupper := (List.cons.inj (List.cons.inj htail).2).1
          exact ⟨String.toList_injective hname, hself hl (Shape.plain_toList_inj hl hl' hlower),
            hself hu (Shape.plain_toList_inj hu hu' hupper)⟩

/-- A name is declared under a kind if its variable has it. -/
theorem mem_namesOfKind {registry : Registry} {vars : VariableSet} {v : Variable} (hv : v ∈ vars)
    (kind : Kind) :
    v.name ∈ namesOfKind registry vars kind ↔ (registry.attributes v).kind = kind := by
  rw [namesOfKind, List.mem_map]
  constructor
  · rintro ⟨w, hw, hname⟩
    obtain ⟨hw, hkind⟩ := List.mem_filter.mp hw
    rw [← VariableSet.eq_of_name_eq (VariableSet.mem_toList_iff.mp hw) hv hname]
    exact of_decide_eq_true hkind
  · intro hkind
    exact ⟨v, List.mem_filter.mpr ⟨VariableSet.mem_toList_iff.mpr hv, decide_eq_true hkind⟩, rfl⟩

theorem namesOfKind_of_words {r r' : Registry} {s s' : VariableSet} {kind : Kind}
    (h : (namesOfKind r s kind).map (fun name => [name.toList])
      = (namesOfKind r' s' kind).map fun name => [name.toList]) :
    namesOfKind r s kind = namesOfKind r' s' kind := by
  refine List.map_injective_iff.mpr (fun n m hnm => ?_) h
  exact String.toList_injective (List.cons.inj hnm).1

/-- Variables of one name have one kind, if the same names are declared
binary and general. -/
theorem kind_eq_of_names {r r' : Registry} {s s' : VariableSet}
    (hbinary : namesOfKind r s .binary = namesOfKind r' s' .binary)
    (hgeneral : namesOfKind r s .integer = namesOfKind r' s' .integer) {v w : Variable}
    (hv : v ∈ s) (hw : w ∈ s') (hname : w.name = v.name) :
    (r.attributes v).kind = (r'.attributes w).kind := by
  have hb : (r.attributes v).kind = .binary ↔ (r'.attributes w).kind = .binary := by
    rw [← mem_namesOfKind hv, ← mem_namesOfKind hw, hbinary, hname]
  have hg : (r.attributes v).kind = .integer ↔ (r'.attributes w).kind = .integer := by
    rw [← mem_namesOfKind hv, ← mem_namesOfKind hw, hgeneral, hname]
  cases hkind : (r.attributes v).kind with
  | binary => exact (hb.mp hkind).symm
  | integer => exact (hg.mp hkind).symm
  | real =>
      rw [hkind] at hb hg
      cases hkind' : (r'.attributes w).kind with
      | binary => exact absurd (hb.mpr hkind') nofun
      | integer => exact absurd (hg.mpr hkind') nofun
      | real => rfl

/-- Whether the bounds of a variable are numbers. -/
def HasBounds (r : Registry) (v : Variable) : Prop :=
  (r.attributes v).lower.isNaN = false ∧ (r.attributes v).upper.isNaN = false

/-- Bounds that are written have the words of the variable of that name. -/
theorem boundsWords?_of_mem {r r' : Registry} {s s' : VariableSet}
    (hs : ∀ v ∈ s, isName v.name.toList = true ∧ HasBounds r v)
    (hs' : ∀ v ∈ s', isName v.name.toList = true ∧ HasBounds r' v)
    (h : boundsWords r s = boundsWords r' s') {v w : Variable} (hv : v ∈ s) (hw : w ∈ s')
    (hname : w.name = v.name) {ws : List (List Char)}
    (hws : boundsWords? v.name (r.attributes v).lower (r.attributes v).upper = some ws) :
    boundsWords? w.name (r'.attributes w).lower (r'.attributes w).upper = some ws := by
  have hmem : ws ∈ boundsWords r' s' := by
    rw [← h]
    exact List.mem_filterMap.mpr ⟨v, VariableSet.mem_toList_iff.mpr hv, hws⟩
  obtain ⟨u, hu, hus⟩ := List.mem_filterMap.mp hmem
  have hu := VariableSet.mem_toList_iff.mp hu
  obtain ⟨hnv, hbv⟩ := hs v hv
  obtain ⟨hnu, hbu⟩ := hs' u hu
  obtain ⟨hvu, _, _⟩ := boundsWords?_inj hnv hnu hbv.1 hbv.2 hbu.1 hbu.2 hws hus
  rw [VariableSet.eq_of_name_eq hw hu (hname.trans hvu)]
  exact hus

/-- Bounds that are not written are zero and infinity. -/
theorem boundsWords?_eq_none {name : String} {lower upper : Float}
    (h : boundsWords? name lower upper = none) :
    (lower == 0) = true ∧ upper = Binary64.infinity := by
  unfold boundsWords? at h
  split at h
  · rename_i hdefault
    rw [Bool.and_eq_true, Binary64.infinity, Binary64.beq_infinity_iff false] at hdefault
    exact hdefault
  split at h
  · cases h
  split at h
  · cases h
  split at h
  · cases h
  · cases h

/-- Variables of one name have the same bounds, as numbers, if the same
bounds are written. -/
theorem bounds_eq_of_words {r r' : Registry} {s s' : VariableSet}
    (hs : ∀ v ∈ s, isName v.name.toList = true ∧ HasBounds r v)
    (hs' : ∀ v ∈ s', isName v.name.toList = true ∧ HasBounds r' v)
    (h : boundsWords r s = boundsWords r' s') {v w : Variable} (hv : v ∈ s) (hw : w ∈ s')
    (hname : w.name = v.name) :
    ((r.attributes v).lower == (r'.attributes w).lower) = true
      ∧ ((r.attributes v).upper == (r'.attributes w).upper) = true := by
  obtain ⟨hnv, hbv⟩ := hs v hv
  obtain ⟨hnw, hbw⟩ := hs' w hw
  cases hwords : boundsWords? v.name (r.attributes v).lower (r.attributes v).upper with
  | some ws =>
      have hwords' := boundsWords?_of_mem hs hs' h hv hw hname hwords
      exact (boundsWords?_inj hnv hnw hbv.1 hbv.2 hbw.1 hbw.2 hwords hwords').2
  | none =>
      cases hwords' : boundsWords? w.name (r'.attributes w).lower (r'.attributes w).upper with
      | some ws =>
          rw [boundsWords?_of_mem hs' hs h.symm hw hv hname.symm hwords'] at hwords
          cases hwords
      | none =>
          obtain ⟨hlower, hupper⟩ := boundsWords?_eq_none hwords
          obtain ⟨hlower', hupper'⟩ := boundsWords?_eq_none hwords'
          rw [Binary64.beq_zero_iff] at hlower hlower'
          refine ⟨Binary64.beq_iff.mpr ⟨hlower ▸ Nat.zero_le _, hlower' ▸ Nat.zero_le _,
            .inr ⟨hlower, hlower'⟩⟩, ?_⟩
          rw [hupper, hupper']
          exact (Binary64.beq_infinity_iff false).mpr rfl

end LpText

end LinearProgram
