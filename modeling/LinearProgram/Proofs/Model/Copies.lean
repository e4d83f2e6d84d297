import LinearProgram.Proofs.LpText.Accepted.Constraints

/-!
# `LinearProgram.Proofs.Model.Copies`: models with other handles

Two models that differ in nothing but the handles of their variables are
copies of one another: `Term.IsCopy`, `Constraint.IsCopy` and
`Model.IsCopy` say that a map between the handles takes one to the
other. Everything else is the very same, constants and bounds included,
and constraints are compared as they stand.

* `Term.IsCopy.perm`: where the map does not identify any two variables,
  the summands are the same ones, in whatever order.
* `IsCopy.scale`, `IsCopy.add`: what is made of copies is a copy again.
* `IsCopy.congr`: only the variables that occur count.
-/

set_option autoImplicit false

namespace LinearProgram

open Decimal (plain)

/-- Whether the second term is the first one with other handles. -/
def Term.IsCopy (f : Variable → Variable) (t u : Term Float) : Prop :=
  (∀ w c, u.coefficients.get? w = some c ↔ ∃ v, t.coefficients.get? v = some c ∧ f v = w)
    ∧ t.constant = u.constant

/-- Whether the second row is the first one with other handles. -/
def Row.IsCopy (f : Variable → Variable) (a b : Row Float) : Prop :=
  a.shape = b.shape ∧ a.term.IsCopy f b.term ∧ a.name = b.name

/-- Whether the second constraint is the first one with other handles,
guards included. -/
def Constraint.IsCopy (f : Variable → Variable) : Constraint Float → Constraint Float → Prop
  | plain a, plain b => a.IsCopy f b
  | guarded g a, guarded h b => g.IsCopy f h ∧ a.IsCopy f b
  | _, _ => False

/-- Whether the second model is the first one with other handles, with
the constraints in the same order. -/
structure Model.IsCopy (f : Variable → Variable) (m m' : Model) : Prop where
  sense : m.objective.sense = m'.objective.sense
  objective : m.objective.term.IsCopy f m'.objective.term
  constraints : List.Forall₂ (Constraint.IsCopy f) m.constraints m'.constraints

/-! ### Terms -/

namespace Term

theorem nodup_occurring {K : Type} [Scalar K] (t : Term K) : t.occurring.Nodup := by
  refine List.pairwise_map.mpr (t.coefficients.ascending.imp fun {p q} hlt heq => ?_)
  rw [heq] at hlt
  exact StrictKey.irrefl _ hlt

variable {f g : Variable → Variable} {t u t' u' : Term Float}

/-- A copy from a listing of the summands, in whatever order. -/
theorem isCopy_of_perm
    (h : u.coefficients.toList.Perm (t.coefficients.toList.map fun p => (f p.1, p.2)))
    (hconstant : t.constant = u.constant) : t.IsCopy f u := by
  refine ⟨fun w c => ?_, hconstant⟩
  rw [← OrderedMap.mem_toList_iff, h.mem_iff, List.mem_map]
  constructor
  · rintro ⟨p, hp, heq⟩
    cases heq
    exact ⟨p.1, OrderedMap.mem_toList_iff.mp hp, rfl⟩
  · rintro ⟨v, hv, rfl⟩
    exact ⟨(v, c), OrderedMap.mem_toList_iff.mpr hv, rfl⟩

theorem IsCopy.mem_occurring_iff (h : t.IsCopy f u) {w : Variable} :
    w ∈ u.occurring ↔ ∃ v ∈ t.occurring, f v = w := by
  simp only [mem_occurring, h.1]
  constructor
  · rintro ⟨c, v, hv, hw⟩
    exact ⟨v, ⟨c, hv⟩, hw⟩
  · rintro ⟨v, ⟨c, hv⟩, hw⟩
    exact ⟨c, v, hv, hw⟩

/-- The coefficient of a copied variable. -/
theorem IsCopy.get?_eq (h : t.IsCopy f u) {v : Variable}
    (hinj : ∀ w ∈ t.occurring, f w = f v → w = v) :
    u.coefficients.get? (f v) = t.coefficients.get? v := by
  refine Option.ext fun c => ?_
  rw [h.1]
  constructor
  · rintro ⟨w, hw, heq⟩
    rwa [← hinj w (mem_occurring.mpr ⟨c, hw⟩) heq]
  · intro hv
    exact ⟨v, hv, rfl⟩

/-- A copy from the coefficients of some variables, those that occur
among them. -/
theorem isCopy_of_get? {P : Variable → Prop} (hknown : ∀ v ∈ t.occurring, P v)
    (honto : ∀ w ∈ u.occurring, ∃ v, P v ∧ f v = w)
    (hget : ∀ v, P v → u.coefficients.get? (f v) = t.coefficients.get? v)
    (hconstant : t.constant = u.constant) : t.IsCopy f u := by
  refine ⟨fun w c => ⟨fun hw => ?_, ?_⟩, hconstant⟩
  · obtain ⟨v, hv, rfl⟩ := honto w (mem_occurring.mpr ⟨c, hw⟩)
    exact ⟨v, (hget v hv).symm.trans hw, rfl⟩
  · rintro ⟨v, hv, rfl⟩
    exact (hget v (hknown v (mem_occurring.mpr ⟨c, hv⟩))).trans hv

theorem IsCopy.congr (h : t.IsCopy f u) (hfg : ∀ v ∈ t.occurring, f v = g v) : t.IsCopy g u := by
  refine ⟨fun w c => (h.1 w c).trans ?_, h.2⟩
  constructor
  · rintro ⟨v, hv, rfl⟩
    exact ⟨v, hv, (hfg v (mem_occurring.mpr ⟨c, hv⟩)).symm⟩
  · rintro ⟨v, hv, rfl⟩
    exact ⟨v, hv, hfg v (mem_occurring.mpr ⟨c, hv⟩)⟩

theorem isCopy_ofConstant (c : Float) : (ofConstant c).IsCopy f (ofConstant c) :=
  isCopy_of_perm (.refl _) rfl

theorem get?_weighted (v : Variable) (c : Float) (w : Variable) :
    (weighted v c).coefficients.get? w = if w = v then keep c else none :=
  get?_addTerm ..

theorem isCopy_weighted (v : Variable) (c : Float) :
    (weighted v c).IsCopy f (weighted (f v) c) := by
  refine ⟨fun w d => ?_, ?_⟩
  · rw [get?_weighted]
    split
    · rename_i hw
      simp only [get?_weighted]
      constructor
      · intro hd
        exact ⟨v, (if_pos rfl).trans hd, hw.symm⟩
      · rintro ⟨x, hd, -⟩
        split at hd
        · exact hd
        · cases hd
    · rename_i hw
      refine ⟨nofun, ?_⟩
      rintro ⟨x, hd, rfl⟩
      rw [get?_weighted] at hd
      split at hd
      · rename_i hx
        exact absurd (congrArg f hx) hw
      · cases hd
  · rw [weighted, weighted, constant_addTerm, constant_addTerm]

theorem IsCopy.scale (h : t.IsCopy f u) (factor : Float) :
    (t.scale factor).IsCopy f (u.scale factor) := by
  refine ⟨fun w c => ?_, congrArg (· * factor) h.2⟩
  simp only [get?_scale, Option.bind_eq_some_iff, h.1]
  constructor
  · rintro ⟨d, ⟨v, hv, hw⟩, hd⟩
    exact ⟨v, ⟨d, hv, hd⟩, hw⟩
  · rintro ⟨v, ⟨d, hv, hd⟩, hw⟩
    exact ⟨d, ⟨v, hv, hw⟩, hd⟩

/-- The coefficients of a sum, one by one. -/
theorem get?_foldl_addTerm {l : List (Variable × Float)} (hl : l.Pairwise fun p q => p.1 < q.1)
    (sign : Float) (t : Term Float) (v : Variable) :
    (l.foldl (fun t p => t.addTerm p.1 (sign * p.2)) t).coefficients.get? v
      = match OrderedMap.find v l with
        | some c => (t.addTerm v (sign * c)).coefficients.get? v
        | none => t.coefficients.get? v := by
  induction l generalizing t with
  | nil => rfl
  | cons p l ih =>
      obtain ⟨hhead, hl⟩ := List.pairwise_cons.mp hl
      rw [List.foldl_cons, ih hl, OrderedMap.find]
      by_cases hv : v = p.1
      · rw [if_pos hv, hv, OrderedMap.find_eq_none hhead]
      · rw [if_neg hv]
        cases OrderedMap.find v l <;> simp only [get?_addTerm, if_neg hv, if_true]

/-- The coefficient of a variable in a sum depends on its coefficients
in the summands alone. -/
theorem get?_absorb (t u : Term Float) (sign : Float) (v : Variable) :
    (t.absorb u sign).coefficients.get? v
      = match u.coefficients.get? v with
        | some c => (t.addTerm v (sign * c)).coefficients.get? v
        | none => t.coefficients.get? v := by
  refine (get?_foldl_addTerm u.coefficients.ascending sign
    (t.addConstant (sign * u.constant)) v).trans ?_
  show (match u.coefficients.get? v with
    | some c => _
    | none => _) = _
  cases u.coefficients.get? v with
  | none => rfl
  | some c =>
      simp only [get?_addTerm, if_true]
      rfl

theorem get?_add (t u : Term Float) (v : Variable) :
    (t + u).coefficients.get? v
      = match u.coefficients.get? v with
        | some c => (t.addTerm v (1 * c)).coefficients.get? v
        | none => t.coefficients.get? v :=
  get?_absorb t u 1 v

theorem IsCopy.add {P : Variable → Prop} (h : t.IsCopy f u) (h' : t'.IsCopy f u')
    (hinj : ∀ v w, P v → P w → f v = f w → v = w) (ht : ∀ v ∈ t.occurring, P v)
    (ht' : ∀ v ∈ t'.occurring, P v) : (t + t').IsCopy f (u + u') := by
  refine isCopy_of_get? (P := P) (fun v hv => ?_) (fun w hw => ?_) (fun v hv => ?_) ?_
  · exact (mem_occurring_add hv).elim (ht v) (ht' v)
  · rcases mem_occurring_add hw with hw | hw
    · obtain ⟨v, hv, rfl⟩ := h.mem_occurring_iff.mp hw
      exact ⟨v, ht v hv, rfl⟩
    · obtain ⟨v, hv, rfl⟩ := h'.mem_occurring_iff.mp hw
      exact ⟨v, ht' v hv, rfl⟩
  · have hsame := h.get?_eq fun w hw => hinj w v (ht w hw) hv
    have hsame' := h'.get?_eq fun w hw => hinj w v (ht' w hw) hv
    rw [get?_add, get?_add, hsame']
    simp only [get?_addTerm, if_true, hsame]
  · rw [LpText.constant_add, LpText.constant_add, h.2, h'.2]

/-- Where no two variables are identified, copies have the same summands
up to their handles. -/
theorem IsCopy.perm (h : t.IsCopy f u)
    (hinj : ∀ v ∈ t.occurring, ∀ w ∈ t.occurring, f v = f w → v = w) :
    u.coefficients.toList.Perm (t.coefficients.toList.map fun p => (f p.1, p.2)) := by
  have hnodup : u.coefficients.toList.Nodup :=
    u.coefficients.ascending.imp fun {p q} hlt heq => by
      rw [heq] at hlt
      exact StrictKey.irrefl _ hlt
  have hmap : (t.coefficients.toList.map fun p => (f p.1, p.2)).Nodup := by
    refine List.pairwise_map.mpr (t.coefficients.ascending.imp_of_mem fun {p q} hp hq hlt heq => ?_)
    have hoccurs : ∀ {p}, p ∈ t.coefficients.toList → p.1 ∈ t.occurring :=
      fun hp => List.mem_map_of_mem hp
    rw [hinj p.1 (hoccurs hp) q.1 (hoccurs hq) (Prod.mk.inj heq).1] at hlt
    exact StrictKey.irrefl _ hlt
  refine (List.perm_ext_iff_of_nodup hnodup hmap).mpr fun q => ?_
  obtain ⟨w, c⟩ := q
  rw [OrderedMap.mem_toList_iff, h.1, List.mem_map]
  constructor
  · rintro ⟨v, hv, rfl⟩
    exact ⟨(v, c), OrderedMap.mem_toList_iff.mpr hv, rfl⟩
  · rintro ⟨⟨v, d⟩, hp, heq⟩
    cases heq
    exact ⟨v, OrderedMap.mem_toList_iff.mp hp, rfl⟩

/-- What is the same of copies, where no two variables are identified. -/
theorem IsCopy.occurring_perm (h : t.IsCopy f u)
    (hinj : ∀ v ∈ t.occurring, ∀ w ∈ t.occurring, f v = f w → v = w) :
    u.occurring.Perm (t.occurring.map f) := by
  have hperm := (h.perm hinj).map Prod.fst
  rw [List.map_map] at hperm
  show u.occurring.Perm (t.coefficients.keys.map f)
  rw [OrderedMap.keys, List.map_map]
  exact hperm

theorem IsCopy.isConstant_eq (h : t.IsCopy f u) : u.isConstant = t.isConstant := by
  rw [Bool.eq_iff_iff, isConstant, isConstant, OrderedMap.isEmpty_iff, OrderedMap.isEmpty_iff]
  simp only [Option.eq_none_iff_forall_ne_some]
  constructor
  · intro hnone v c hv
    exact hnone (f v) c ((h.1 _ _).mpr ⟨v, hv, rfl⟩)
  · intro hnone w c hw
    obtain ⟨v, hv, _⟩ := (h.1 w c).mp hw
    exact hnone v c hv

/-- A copy of a lone variable is the lone copied variable. -/
theorem IsCopy.loneVariable?_eq (h : t.IsCopy f u)
    (hinj : ∀ v ∈ t.occurring, ∀ w ∈ t.occurring, f v = f w → v = w) :
    Constraint.loneVariable? u = (Constraint.loneVariable? t).map f := by
  have hperm := h.perm hinj
  unfold Constraint.loneVariable?
  rw [← h.2]
  rcases hlist : t.coefficients.toList with _ | ⟨p, _ | ⟨q, rest⟩⟩ <;> rw [hlist] at hperm
  · rw [List.perm_nil.mp hperm]
    rfl
  · have hlone : u.coefficients.toList = [(f p.1, p.2)] := List.perm_singleton.mp hperm
    rw [hlone]
    dsimp only
    split
    · rfl
    · rfl
  · -- Two summands stay two.
    rcases hlist' : u.coefficients.toList with _ | ⟨p', _ | ⟨q', rest'⟩⟩ <;> rw [hlist'] at hperm
    · exact absurd hperm.length_eq (by simp)
    · exact absurd hperm.length_eq (by simp)
    · rfl

end Term

/-! ### Constraints -/

namespace Constraint

variable {f g : Variable → Variable} {c d : Constraint Float}

/-- Copies have copied rows. -/
theorem IsCopy.row (h : c.IsCopy f d) : c.row.IsCopy f d.row := by
  cases c with
  | plain a =>
      cases d with
      | plain b => exact h
      | guarded k b => cases h
  | guarded g a =>
      cases d with
      | plain b => cases h
      | guarded k b => exact h.2

theorem IsCopy.term (h : c.IsCopy f d) : c.term.IsCopy f d.term := h.row.2.1

theorem IsCopy.shape_eq (h : c.IsCopy f d) : c.shape = d.shape := h.row.1

theorem IsCopy.congr (h : c.IsCopy f d) (hfg : ∀ v, c.Occurs v → f v = g v) : c.IsCopy g d := by
  induction c generalizing d with
  | plain a =>
      cases d with
      | plain b => exact ⟨h.1, h.2.1.congr hfg, h.2.2⟩
      | guarded k b => cases h
  | guarded guard a ih =>
      cases d with
      | plain b => cases h
      | guarded k b =>
          exact ⟨ih h.1 fun v hv => hfg v (.inr hv), h.2.1, h.2.2.1.congr fun v hv =>
            hfg v (.inl hv), h.2.2.2⟩

end Constraint

end LinearProgram
