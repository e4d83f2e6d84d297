import LinearProgram.Loader
import LinearProgram.Proofs.Solver.Observation
import LinearProgram.Proofs.Solver.Session
import Mathlib.Data.List.Forall2

/-!
# `LinearProgram.Proofs.Solver.Wrapping`: a wrapped backend is the backend

A backend can be put behind others that pass every call on: `Layer` says
how, `Backend.wrapped` does it. `wrapped_eq` says that nothing changes
but the name, and what a solver does never depends on the name.

* `Solver.renamed` gives the backend of a solver another name, and
  `Solver.PassesNames` says of an action that it makes no difference
  whether that is done before or after. It is kept where actions follow
  one another (`PassesNames.bind`, `PassesNames.each`).
* `perform_renamed` is the step: an operation of a session answers the
  same, whatever the backend is called, and leaves the same session.
  `trace_wrapped` is the run.
* `wrapping_invisible` says this of a session from its beginning, also for new
  engines on the way, and of the calls that the backend behind all
  layers receives.
-/

set_option autoImplicit false

namespace LinearProgram

variable {σ : Type}

/-! ### Layers -/

/-- One way to put a backend behind another. -/
inductive Layer where
  | boxed
  /-- It is adopted as one that has been loaded at run time. -/
  | adopted
deriving DecidableEq, Repr

namespace Backend

/-- A backend behind layers, the outermost one first. -/
def wrapped (b : Backend σ) : List Layer → Backend σ
  | [] => b
  | .boxed :: rest => (b.wrapped rest).boxed
  | .adopted :: rest => (b.wrapped rest).adopted

/-- The backend under another name. -/
def renamed (b : Backend σ) (name : String) : Backend σ := { b with name }

theorem renamed_renamed (b : Backend σ) (n n' : String) : (b.renamed n).renamed n' = b.renamed n' :=
  rfl

/-- Each operation of a backend that forwards is the one behind it. -/
theorem forwarding_eq (b : Backend σ) (name : String) : b.forwarding name = b.renamed name := rfl

/-- The name that a backend has behind layers. -/
def shownName (name : String) : List Layer → String
  | [] => name
  | .boxed :: rest => shownName name rest
  | .adopted :: rest => "Dynamic: " ++ shownName name rest

/-- Layers change the name and nothing else. -/
theorem wrapped_eq (b : Backend σ) (layers : List Layer) :
    b.wrapped layers = b.renamed (shownName b.name layers) := by
  induction layers with
  | nil => rfl
  | cons layer rest ih =>
      cases layer with
      | boxed => rw [wrapped, boxed, forwarding_eq, ih, renamed_renamed]; rfl
      | adopted => rw [wrapped, adopted, forwarding_eq, ih, renamed_renamed]; rfl

end Backend

/-- An engine whose backend is behind layers. -/
def Engine.wrapped (e : Engine σ) (layers : List Layer) : Engine σ :=
  { e with backend := e.backend.wrapped layers }

/-! ### Names do not matter to a solver -/

namespace Solver

/-- The solver with another name for its backend. -/
def renamed (name : String) (s : Solver σ) : Solver σ :=
  { s with engine := { s.engine with backend := s.engine.backend.renamed name } }

/-- Whether an action does the same whatever the backend is called. -/
def PassesNames {ε α : Type} (x : Action (Solver σ) ε α) : Prop :=
  ∀ name s, x (s.renamed name) = ((x s).1, (x s).2.renamed name)

variable {ε α β : Type}

theorem PassesNames.bind {x : Action (Solver σ) ε α} {f : α → Action (Solver σ) ε β}
    (hx : PassesNames x) (hf : ∀ a, PassesNames (f a)) : PassesNames (x >>= f) := by
  intro name s
  rw [Action.bind_apply, Action.bind_apply, hx name s]
  rcases x s with ⟨e | a, s'⟩
  · rfl
  · exact hf a name s'

theorem PassesNames.each {f : α → Action (Solver σ) ε Unit} (hf : ∀ a, PassesNames (f a))
    (as : List α) : PassesNames (Action.each f as) := by
  induction as with
  | nil => exact fun name s => rfl
  | cons a rest ih => exact (hf a).bind fun _ => ih

theorem passesNames_change {f : Solver σ → Solver σ}
    (h : ∀ name s, f (s.renamed name) = (f s).renamed name) :
    PassesNames (Action.change f : Action (Solver σ) ε Unit) := by
  intro name s
  rw [Action.change, h]
  rfl

/-! ### The operations on the model and the settings -/

theorem passesNames_setGap (knob : Knob) (gap : Float) (f : Config → Config) :
    PassesNames (setGap (σ := σ) knob gap f) := by
  intro name s
  unfold setGap
  split <;> rfl

theorem passesNames_setObjective (o : Objective) : PassesNames (setObjective (σ := σ) o) := by
  intro name s
  have hcheck : (s.renamed name).checkObjective o = s.checkObjective o := rfl
  unfold setObjective
  rw [hcheck]
  cases s.checkObjective o <;> rfl

theorem passesNames_addConstraint (c : Constraint Float) :
    PassesNames (addConstraint (σ := σ) c) := by
  intro name s
  have hsame : (s.renamed name).admitConstraint c = s.admitConstraint c := rfl
  unfold addConstraint
  rw [hsame]
  cases s.admitConstraint c <;> rfl

theorem passesNames_addConstraints (cs : List (Constraint Float)) :
    PassesNames (addConstraints (σ := σ) cs) :=
  PassesNames.each passesNames_addConstraint cs

theorem passesNames_setStartValues (registry : Registry) (values : Assignment) :
    PassesNames (setStartValues (σ := σ) registry values) := by
  intro name s
  unfold setStartValues
  cases checkStartValues registry values.toList <;> rfl

theorem passesNames_loadModel (m : Model) : PassesNames (loadModel (σ := σ) m) :=
  (passesNames_change fun _ _ => rfl).bind fun _ =>
    (passesNames_setObjective m.objective).bind fun _ => passesNames_addConstraints m.constraints

/-! ### Loading and solving -/

theorem loadText_renamed (text name : String) (s : Solver σ) (registry : Registry) :
    loadText text (s.renamed name, registry)
      = ((loadText text (s, registry)).1,
        ((loadText text (s, registry)).2.1.renamed name, (loadText text (s, registry)).2.2)) := by
  unfold loadText
  dsimp only
  rw [passesNames_loadModel]
  rcases loadModel (LpText.read registry text).1.model s with ⟨e | ⟨⟩, s'⟩ <;> rfl

/-- A run asks the engine by its operations and not by its name. -/
theorem passesNames_solveFresh (registry : Registry) (times : Durations) (vars : VariableSet)
    (start : Assignment) : PassesNames (solveFresh (σ := σ) registry times vars start) := by
  intro name s
  have hrun : ∀ vars', runEngine (s.renamed name).engine.backend (s.renamed name).config
      (s.renamed name).model vars' start (s.renamed name).engine.state
      = runEngine s.engine.backend s.config s.model vars' start s.engine.state := fun _ => rfl
  unfold solveFresh
  dsimp only
  rw [hrun]
  rcases runEngine s.engine.backend s.config s.model
    (vars.toList.map fun v => (v, registry.attributes v)) start s.engine.state
    with ⟨e | ⟨status, found⟩, state⟩ <;> rfl

variable {δ : Type} [Storage δ]

theorem solveChanged_renamed (registry : Registry) (times : Durations) (vars : VariableSet)
    (start : Assignment) (name : String) (s : Solver σ) (files : δ) :
    solveChanged registry times vars start (s.renamed name, files)
      = ((solveChanged registry times vars start (s, files)).1,
        ((solveChanged registry times vars start (s, files)).2.1.renamed name,
          (solveChanged registry times vars start (s, files)).2.2)) := by
  have hfresh := passesNames_solveFresh registry times vars start name s
  have hconfig : (s.renamed name).config = s.config := rfl
  unfold solveChanged
  dsimp only
  rw [hconfig]
  cases hdir : s.config.cacheDir with
  | none =>
      dsimp only
      rw [hfresh]
  | some dir =>
      have hmodel : (s.renamed name).model = s.model := rfl
      unfold solveCached
      dsimp only
      rw [hmodel, hfresh]
      split
      · rfl
      · rcases solveFresh registry times vars start s with ⟨e | status, s'⟩ <;> rfl

theorem solve_renamed (registry : Registry) (times : Durations) (name : String) (s : Solver σ)
    (files : δ) :
    solve registry times (s.renamed name, files)
      = ((solve registry times (s, files)).1,
        ((solve registry times (s, files)).2.1.renamed name,
          (solve registry times (s, files)).2.2)) := by
  have hdirty : (s.renamed name).dirty = s.dirty := rfl
  have hprepare : (s.renamed name).prepare registry = s.prepare registry := rfl
  unfold solve
  dsimp only
  rw [hdirty, hprepare]
  split
  · rfl
  · cases s.prepare registry with
    | error e => rfl
    | ok prepared =>
        dsimp only
        rw [solveChanged_renamed]
        rcases solveChanged registry times prepared.1 prepared.2 (s, files)
          with ⟨e | status, s', files'⟩ <;> rfl

end Solver

/-! ### Sessions -/

/-- The operation, with new engines behind layers. -/
def Operation.wrapped {δ : Type} : Operation σ δ → List Layer → Operation σ δ
  | .setEngine engine, layers => .setEngine (engine.wrapped layers)
  | op, _ => op

namespace Session

variable {δ : Type}

/-- The session with another name for the backend. -/
def renamed (name : String) (w : Session σ δ) : Session σ δ :=
  { w with solver := w.solver.renamed name }

/-- Whether two sessions are the same, the name of the backend excepted. -/
def SameButName (w w' : Session σ δ) : Prop := ∃ name, w = w'.renamed name

theorem onSolver_renamed {x : Action (Solver σ) ModelError Unit} (hx : Solver.PassesNames x)
    (name : String) (w : Session σ δ) :
    onSolver x (w.renamed name) = ((onSolver x w).1, (onSolver x w).2.renamed name) := by
  have happly : x (w.renamed name).solver = ((x w.solver).1, (x w.solver).2.renamed name) :=
    hx name w.solver
  unfold onSolver
  rw [happly]
  rcases x w.solver with ⟨e | ⟨⟩, s⟩ <;> rfl

theorem start_wrapped (e : Engine σ) (layers : List Layer) (config : Config)
    (registry : Registry) (files : δ) :
    start (e.wrapped layers) config registry files
      = (start e config registry files).renamed (Backend.shownName e.backend.name layers) := by
  rw [Engine.wrapped, Backend.wrapped_eq]
  rfl

/-- Whether the same is seen, the name of the backend excepted. -/
def SameTrace (seen seen' : List (Except SolverError Answer × Session σ δ)) : Prop :=
  List.Forall₂ (fun p q => p.1 = q.1 ∧ p.2.SameButName q.2) seen seen'

/-- The calls that the backend of a session has received, if it is
observed. -/
def calls (w : Session (σ × List Call) δ) : List Call := w.solver.engine.state.2

/-- Where the same is seen the backend has received the same calls. -/
theorem SameTrace.calls_eq
    {seen seen' : List (Except SolverError Answer × Session (σ × List Call) δ)}
    (h : SameTrace seen seen') : seen.map (·.2.calls) = seen'.map (·.2.calls) := by
  induction h with
  | nil => rfl
  | cons hpair _ ih =>
      obtain ⟨-, name, heq⟩ := hpair
      rw [List.map_cons, List.map_cons, ih, heq]
      rfl

variable [Storage δ]

/-- An operation answers the same whatever the backend is called, and it
leaves the same session. A new engine has a name of its own. -/
theorem perform_renamed (op : Operation σ δ) (layers : List Layer) (name : String)
    (w : Session σ δ) :
    ∃ name', perform (op.wrapped layers) (w.renamed name)
      = ((perform op w).1, (perform op w).2.renamed name') := by
  cases op with
  | setEngine engine =>
      refine ⟨Backend.shownName engine.backend.name layers, ?_⟩
      rw [Operation.wrapped, Engine.wrapped, Backend.wrapped_eq]
      rfl
  | configure f =>
      exact ⟨name, onSolver_renamed (Solver.passesNames_change fun _ _ => rfl) name w⟩
  | setRelativeGap gap =>
      exact ⟨name, onSolver_renamed (Solver.passesNames_setGap _ gap _) name w⟩
  | setAbsoluteGap gap =>
      exact ⟨name, onSolver_renamed (Solver.passesNames_setGap _ gap _) name w⟩
  | resetGaps => exact ⟨name, onSolver_renamed (Solver.passesNames_change fun _ _ => rfl) name w⟩
  | setObjective o => exact ⟨name, onSolver_renamed (Solver.passesNames_setObjective o) name w⟩
  | addConstraint c => exact ⟨name, onSolver_renamed (Solver.passesNames_addConstraint c) name w⟩
  | addConstraints cs =>
      exact ⟨name, onSolver_renamed (Solver.passesNames_addConstraints cs) name w⟩
  | setStartValues values =>
      exact ⟨name, onSolver_renamed (Solver.passesNames_setStartValues w.registry values) name w⟩
  | reset => exact ⟨name, onSolver_renamed (Solver.passesNames_change fun _ _ => rfl) name w⟩
  | loadText text =>
      have hload := Solver.loadText_renamed text name w.solver w.registry
      refine ⟨name, ?_⟩
      simp only [Operation.wrapped, perform, renamed, hload]
      rcases Solver.loadText text (w.solver, w.registry) with ⟨e | problems, s, registry⟩ <;> rfl
  | loadFile path =>
      refine ⟨name, ?_⟩
      simp only [Operation.wrapped, perform, renamed, Solver.loadLpFile]
      cases readText w.files path with
      | error e => rfl
      | ok text =>
          have hload := Solver.loadText_renamed text name w.solver w.registry
          simp only [hload]
          rcases Solver.loadText text (w.solver, w.registry) with ⟨e | problems, s, registry⟩ <;> rfl
  | writeFile path =>
      have hwrite : Solver.writeLpFile w.registry path (w.solver.renamed name) w.files
          = Solver.writeLpFile w.registry path w.solver w.files := rfl
      refine ⟨name, ?_⟩
      simp only [Operation.wrapped, perform, renamed, hwrite]
      rcases Solver.writeLpFile w.registry path w.solver w.files with ⟨e | ⟨⟩, files⟩ <;> rfl
  | solve times =>
      have hsolve := Solver.solve_renamed w.registry times name w.solver w.files
      refine ⟨name, ?_⟩
      simp only [Operation.wrapped, perform, renamed, hsolve]
      rcases Solver.solve w.registry times (w.solver, w.files) with ⟨e | status, s, files⟩ <;> rfl
  | changeVariable op =>
      refine ⟨name, ?_⟩
      simp only [Operation.wrapped, perform, renamed]
      cases op.apply w.registry <;> rfl
  | changeFiles f => exact ⟨name, rfl⟩

/-- What is seen of a session: after each operation, what it answers and
the session that it leaves. -/
def trace : List (Operation σ δ) → Session σ δ → List (Except SolverError Answer × Session σ δ)
  | [], _ => []
  | op :: rest, w => perform op w :: trace rest (perform op w).2

/-- Operations one after another, and new engines behind layers on one side. -/
theorem trace_renamed (ops : List (Operation σ δ × List Layer)) (name : String)
    (w : Session σ δ) :
    SameTrace (trace (ops.map fun p => p.1.wrapped p.2) (w.renamed name))
      (trace (ops.map (·.1)) w) := by
  induction ops generalizing name w with
  | nil => exact .nil
  | cons p rest ih =>
      obtain ⟨name', hstep⟩ := perform_renamed p.1 p.2 name w
      simp only [List.map_cons, trace, hstep]
      exact .cons ⟨rfl, name', rfl⟩ (ih name' (perform p.1 w).2)

/-- The whole session of an engine behind layers. -/
theorem trace_wrapped (e : Engine σ) (layers : List Layer) (config : Config)
    (registry : Registry) (files : δ) (ops : List (Operation σ δ × List Layer)) :
    SameTrace (trace (ops.map fun p => p.1.wrapped p.2)
        (start (e.wrapped layers) config registry files))
      (trace (ops.map (·.1)) (start e config registry files)) := by
  rw [start_wrapped]
  exact trace_renamed ops _ _

end Session

/-! ### Adoption -/

variable {ρ : Type}

/-- The first engine that qualifies is one that the loader has given. -/
theorem exists_loaded_of_firstQualified {loader : Loader ρ σ} {required : List Feature}
    {names : List String} {r r' : ρ} {e : Engine σ}
    (h : firstQualified loader required names r = (.ok e, r')) :
    ∃ name ∈ names, ∃ r₀, loader name r₀ = (.ok e, r') := by
  induction names generalizing r with
  | nil => cases h
  | cons name rest ih =>
      have hrest : ∀ {why : Rejection} {r₁ : ρ},
          firstQualified.reject name why (firstQualified loader required rest r₁) = (.ok e, r') →
            ∃ name' ∈ name :: rest, ∃ r₀, loader name' r₀ = (.ok e, r') := by
        intro why r₁ h
        rcases hlater : firstQualified loader required rest r₁ with ⟨others | found, r₂⟩
        · rw [hlater] at h
          cases h
        · rw [hlater] at h
          cases h
          obtain ⟨name', hname', hloaded⟩ := ih hlater
          exact ⟨name', List.mem_cons_of_mem _ hname', hloaded⟩
      rw [firstQualified] at h
      rcases hload : loader name r with ⟨reason | found, r₁⟩
      · simp only [hload] at h
        exact hrest h
      · simp only [hload] at h
        split at h
        · cases h
          exact ⟨name, List.mem_cons_self .., r, hload⟩
        · exact hrest h

/-- An engine that is adopted is one that the loader has given, behind a
layer. -/
theorem exists_loaded_of_adopt {config : LoaderConfig} {loader : Loader ρ σ} {r r' : ρ}
    {e : Engine σ} (h : adopt config loader r = (.ok e, r')) :
    ∃ e₀ : Engine σ, (∃ name r₀, loader name r₀ = (.ok e₀, r')) ∧ e = e₀.wrapped [.adopted] := by
  unfold adopt at h
  split at h
  · cases h
  · rename_i names
    rcases hfound : firstQualified loader config.required config.candidateOrder r
      with ⟨rejected | found, r₁⟩
    · rw [hfound] at h
      cases h
    · rw [hfound] at h
      cases h
      obtain ⟨name, -, r₀, hloaded⟩ := exists_loaded_of_firstQualified hfound
      exact ⟨found, ⟨name, r₀, hloaded⟩, rfl⟩

/-- A wrapped backend is the backend. A session with an engine behind any
layers answers as the session with the engine itself does, and after
each operation it is the same but for the name of the backend: status,
solution, model, variables, files and the state of the engine. New
engines on the way may be behind layers as well. The backend behind the
layers receives the same calls in the same order. An engine that a
loader's search adopts is behind such a layer. -/
theorem wrapping_invisible {δ : Type} [Storage δ] (layers : List Layer) (config : Config)
    (registry : Registry) (files : δ) :
    (∀ (e : Engine σ) (ops : List (Operation σ δ × List Layer)),
      Session.SameTrace
        (Session.trace (ops.map fun p => p.1.wrapped p.2)
          (.start (e.wrapped layers) config registry files))
        (Session.trace (ops.map (·.1)) (.start e config registry files)))
      ∧ (∀ (b : Backend σ) (s : σ) (ops : List (Operation (σ × List Call) δ × List Layer)),
        (Session.trace (ops.map fun p => p.1.wrapped p.2)
            (.start ⟨b.observed.wrapped layers, s, []⟩ config registry files)).map (·.2.calls)
          = (Session.trace (ops.map (·.1))
            (.start ⟨b.observed, s, []⟩ config registry files)).map (·.2.calls))
      ∧ ∀ (search : LoaderConfig) (loader : Loader ρ σ) (r r' : ρ) (e : Engine σ),
        adopt search loader r = (.ok e, r') →
          ∃ e₀ : Engine σ, (∃ name r₀, loader name r₀ = (.ok e₀, r'))
            ∧ e = e₀.wrapped [.adopted] := by
  refine ⟨fun e ops => ?_, fun b s ops => ?_, fun search loader r r' e h => ?_⟩
  · exact Session.trace_wrapped e layers config registry files ops
  · -- The calls are a part of the state of the engine, which stays the same.
    exact (Session.trace_wrapped ⟨b.observed, s, []⟩ layers config registry files ops).calls_eq
  · exact exists_loaded_of_adopt h

end LinearProgram
