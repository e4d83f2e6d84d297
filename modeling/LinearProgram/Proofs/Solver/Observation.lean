import LinearProgram.Proofs.Solver.Solving

/-!
# `LinearProgram.Proofs.Solver.Observation`: what an engine is asked

An engine can be put under observation: then its state also holds the
calls that it has received, and it answers as before. What is asked of
any engine is seen in this way.

* `Command` is what an engine is told before it is asked to solve, and
  `commands` are those that settings, a model and start values call for.
  Nothing else goes into them.
* `runEngine_eq`: a run tells an engine the commands one after another,
  up to the first that fails, and then asks it to solve.
* `each_tell_observed` is the induction: of a list of commands an engine
  receives those up to the first that fails. `runEngine_observed` says
  the same of the calls of a run.
-/

set_option autoImplicit false

namespace LinearProgram

/-- What an engine is told before it is asked to solve. -/
inductive Command where
  | reset
  | setThreads (threads : Nat)
  | setConsoleOutput (on : Bool)
  | setTimeout (seconds : Float)
  | setIntegerTolerance (tolerance : Float)
  | setAbsoluteGap (gap : Float)
  | setRelativeGap (gap : Float)
  | setPresolve (on : Bool)
  | addVariable (v : Variable × Attributes)
  | addVariables (vars : List (Variable × Attributes))
  | addConstraint (c : Constraint Float)
  | addConstraints (cs : List (Constraint Float))
  | setObjective (o : Objective)
  | setStartValues (values : Assignment)

/-- A call that an engine receives. -/
inductive Call where
  | tell (command : Command)
  | solve

namespace Action

variable {σ ε α : Type}

/-- An action that notes a call, and does what another one does. -/
def noting (call : Call) (x : Action σ ε α) : Action (σ × List Call) ε α := fun p =>
  ((x p.1).1, ((x p.1).2, p.2 ++ [call]))

/-- Two lists one after the other, where nothing in the first one fails. -/
theorem each_append {f : α → Action σ ε Unit} {xs : List α} {s s' : σ}
    (h : each f xs s = (.ok (), s')) (ys : List α) : each f (xs ++ ys) s = each f ys s' := by
  induction xs generalizing s with
  | nil =>
      cases h
      rfl
  | cons x xs ih =>
      rw [List.cons_append, each_cons_apply]
      rw [each_cons_apply] at h
      rcases hx : f x s with ⟨e | ⟨⟩, s₁⟩
      · rw [hx] at h
        cases h
      · rw [hx] at h
        exact ih h

theorem each_nil_bind {β : Type} (f : α → Action σ ε Unit) (y : Action σ ε β) :
    (each f [] >>= fun _ => y) = y := rfl

/-- What follows a list follows its last member. -/
theorem each_cons_bind {β : Type} (f : α → Action σ ε Unit) (x : α) (xs : List α)
    (y : Action σ ε β) :
    (each f (x :: xs) >>= fun _ => y) = (f x >>= fun _ => each f xs >>= fun _ => y) := by
  funext s
  rw [bind_apply, each_cons_apply, bind_apply]
  rcases f x s with ⟨e | ⟨⟩, s'⟩ <;> rfl

end Action

namespace Backend

variable {σ : Type}

/-- A backend that also keeps the calls that it receives. -/
def observed (b : Backend σ) : Backend (σ × List Call) where
  name := b.name
  features := b.features
  reset p := (b.reset p.1, p.2 ++ [.tell .reset])
  setConsoleOutput on p := (b.setConsoleOutput on p.1, p.2 ++ [.tell (.setConsoleOutput on)])
  addVariable v := .noting (.tell (.addVariable v)) (b.addVariable v)
  addConstraint c := .noting (.tell (.addConstraint c)) (b.addConstraint c)
  setObjective o := .noting (.tell (.setObjective o)) (b.setObjective o)
  solve := .noting .solve b.solve
  addVariables vars := .noting (.tell (.addVariables vars)) (b.addVariables vars)
  addConstraints cs := .noting (.tell (.addConstraints cs)) (b.addConstraints cs)
  setThreads n p := (b.setThreads n p.1, p.2 ++ [.tell (.setThreads n)])
  setTimeout x p := (b.setTimeout x p.1, p.2 ++ [.tell (.setTimeout x)])
  setIntegerTolerance x p :=
    (b.setIntegerTolerance x p.1, p.2 ++ [.tell (.setIntegerTolerance x)])
  setAbsoluteGap x p := (b.setAbsoluteGap x p.1, p.2 ++ [.tell (.setAbsoluteGap x)])
  setRelativeGap x p := (b.setRelativeGap x p.1, p.2 ++ [.tell (.setRelativeGap x)])
  setPresolve on p := (b.setPresolve on p.1, p.2 ++ [.tell (.setPresolve on)])
  setStartValues a := .noting (.tell (.setStartValues a)) (b.setStartValues a)

/-- What a command does to a backend. -/
def tell (b : Backend σ) : Command → Action σ BackendError Unit
  | .reset => .change b.reset
  | .setThreads n => .change (b.setThreads n)
  | .setConsoleOutput on => .change (b.setConsoleOutput on)
  | .setTimeout x => .change (b.setTimeout x)
  | .setIntegerTolerance x => .change (b.setIntegerTolerance x)
  | .setAbsoluteGap x => .change (b.setAbsoluteGap x)
  | .setRelativeGap x => .change (b.setRelativeGap x)
  | .setPresolve on => .change (b.setPresolve on)
  | .addVariable v => b.addVariable v
  | .addVariables vars => b.addVariables vars
  | .addConstraint c => b.addConstraint c
  | .addConstraints cs => b.addConstraints cs
  | .setObjective o => b.setObjective o
  | .setStartValues a => b.setStartValues a

/-- Observation notes a command and changes nothing about it. -/
theorem tell_observed (b : Backend σ) (command : Command) (s : σ) (calls : List Call) :
    b.observed.tell command (s, calls)
      = ((b.tell command s).1, ((b.tell command s).2, calls ++ [.tell command])) := by
  cases command <;> rfl

/-- Of a list of commands an observed engine receives those up to the
first that fails, and all of them if none does. -/
theorem each_tell_observed (b : Backend σ) (commands : List Command) (s : σ)
    (calls : List Call) :
    ∃ told, told <+: commands ∧ ((Action.each b.tell commands s).1 = .ok () → told = commands)
      ∧ Action.each b.observed.tell commands (s, calls)
        = ((Action.each b.tell commands s).1,
          ((Action.each b.tell commands s).2, calls ++ told.map .tell)) := by
  induction commands generalizing s calls with
  | nil => exact ⟨[], List.prefix_rfl, fun _ => rfl, by rw [List.map_nil, List.append_nil]; rfl⟩
  | cons command rest ih =>
      rw [Action.each_cons_apply, Action.each_cons_apply, tell_observed]
      rcases b.tell command s with ⟨e | ⟨⟩, s'⟩
      · -- The command itself is received, and nothing after it.
        exact ⟨[command], ⟨rest, rfl⟩, nofun, rfl⟩
      · obtain ⟨told, hbegun, hall, heq⟩ := ih s' (calls ++ [.tell command])
        -- The notes of the rest go behind the note of this command.
        refine ⟨command :: told, List.cons_prefix_cons.mpr ⟨rfl, hbegun⟩, fun h => ?_, ?_⟩
        · rw [hall h]
        · rw [List.map_cons, ← List.append_cons] at *
          exact heq

end Backend

/-! ### The commands of a run -/

/-- A setting, unless it is open. -/
def Command.ofSetting {α : Type} (command : α → Command) : Option α → List Command
  | some value => [command value]
  | none => []

/-- The commands that pass settings on, open ones and zero threads
excepted. -/
def Config.commands (c : Config) : List Command :=
  (if 0 < c.threads then [.setThreads c.threads] else [])
    ++ [.setConsoleOutput (!c.quiet)]
    ++ Command.ofSetting .setTimeout c.timeLimit
    ++ Command.ofSetting .setIntegerTolerance c.integerTolerance
    ++ Command.ofSetting .setAbsoluteGap c.absoluteGap
    ++ Command.ofSetting .setRelativeGap c.relativeGap
    ++ [.setPresolve c.presolve]

/-- What an engine is told in a run: a fresh start, the settings, the
model, and start values if there are any. -/
def commands (c : Config) (m : Model) (vars : List (Variable × Attributes)) (start : Assignment) :
    List Command :=
  .reset :: (c.commands
    ++ ([.addVariables vars, .setObjective m.objective, .addConstraints m.constraints]
      ++ if start.isEmpty then [] else [.setStartValues start]))

/-- The calls of a run that succeeds. -/
def plan (c : Config) (m : Model) (vars : List (Variable × Attributes)) (start : Assignment) :
    List Call :=
  (commands c m vars start).map .tell ++ [.solve]

section Run

variable {σ : Type} {b : Backend σ} {s : σ} {m : Model} {vars : List (Variable × Attributes)}
  {start : Assignment}

theorem each_tell_ofSetting {α : Type} (command : α → Command) {f : α → σ → σ}
    (h : ∀ x, b.tell (command x) = .change (f x)) (setting : Option α) (s : σ) :
    Action.each b.tell (Command.ofSetting command setting) s
      = (.ok (), Solver.passOn f setting s) := by
  cases setting with
  | none => rfl
  | some x =>
      rw [Command.ofSetting, Action.each_cons_apply, h]
      rfl

/-- Settings are passed on by their commands, which cannot fail. -/
theorem each_tell_config (b : Backend σ) (c : Config) (s : σ) :
    Action.each b.tell c.commands s = (.ok (), Solver.passConfig b c s) := by
  have hthreads : Action.each b.tell (if 0 < c.threads then [.setThreads c.threads] else []) s
      = (.ok (), if 0 < c.threads then b.setThreads c.threads s else s) := by
    split <;> rfl
  have hconsole := Action.each_append hthreads [.setConsoleOutput (!c.quiet)]
  have htimeout := (Action.each_append hconsole _).trans
    (each_tell_ofSetting .setTimeout (fun _ => rfl) c.timeLimit _)
  have htolerance := (Action.each_append htimeout _).trans
    (each_tell_ofSetting .setIntegerTolerance (fun _ => rfl) c.integerTolerance _)
  have habsolute := (Action.each_append htolerance _).trans
    (each_tell_ofSetting .setAbsoluteGap (fun _ => rfl) c.absoluteGap _)
  have hrelative := (Action.each_append habsolute _).trans
    (each_tell_ofSetting .setRelativeGap (fun _ => rfl) c.relativeGap _)
  exact Action.each_append hrelative [.setPresolve c.presolve]

/-- A run tells an engine its commands and, if none fails, asks it to solve. -/
theorem runEngine_eq (b : Backend σ) (c : Config) (m : Model)
    (vars : List (Variable × Attributes)) (start : Assignment) :
    Solver.runEngine b c m vars start
      = (Action.each b.tell (commands c m vars start) >>= fun _ => b.solve) := by
  funext s
  -- The fresh start and the settings cannot fail, so they can be left aside.
  have hreset : Action.each b.tell (commands c m vars start) s
      = Action.each b.tell ([.addVariables vars, .setObjective m.objective,
          .addConstraints m.constraints] ++ if start.isEmpty then [] else [.setStartValues start])
        (Solver.passConfig b c (b.reset s)) := by
    rw [commands, Action.each_cons_apply]
    exact Action.each_append (each_tell_config b c (b.reset s)) _
  have hrun : Solver.runEngine b c m vars start s
      = (b.addVariables vars >>= fun _ => b.setObjective m.objective >>= fun _ =>
        b.addConstraints m.constraints >>= fun _ =>
          if start.isEmpty then b.solve else b.setStartValues start >>= fun _ => b.solve)
        (Solver.passConfig b c (b.reset s)) := rfl
  rw [Action.bind_apply, hreset, hrun, ← Action.bind_apply]
  -- What is left are the calls for the model, one command for each.
  simp only [List.cons_append, List.nil_append, Action.each_cons_bind]
  cases start.isEmpty with
  | true => rfl
  | false =>
      simp only [Bool.false_eq_true, if_false, Action.each_cons_bind, Action.each_nil_bind]
      rfl

/-- In a run an observed engine receives the calls that have been planned,
up to the first that fails. -/
theorem runEngine_observed (b : Backend σ) (c : Config) (m : Model)
    (vars : List (Variable × Attributes)) (start : Assignment) (s : σ) (calls : List Call) :
    ∃ asked, asked <+: plan c m vars start
      ∧ ((Solver.runEngine b c m vars start s).1.isOk = true → asked = plan c m vars start)
      ∧ Solver.runEngine b.observed c m vars start (s, calls)
        = ((Solver.runEngine b c m vars start s).1,
          ((Solver.runEngine b c m vars start s).2, calls ++ asked)) := by
  obtain ⟨told, hbegun, hall, heq⟩ :=
    b.each_tell_observed (commands c m vars start) s calls
  rw [runEngine_eq, runEngine_eq, Action.bind_apply, Action.bind_apply, heq]
  rcases htold : Action.each b.tell (commands c m vars start) s with ⟨e | ⟨⟩, s'⟩
  · -- A command has failed, so the engine is not asked to solve.
    have hpart : told.map Call.tell <+: plan c m vars start :=
      (hbegun.map Call.tell).trans (List.prefix_append _ _)
    exact ⟨told.map .tell, hpart, nofun, rfl⟩
  · have htold := hall (by rw [htold])
    refine ⟨plan c m vars start, List.prefix_rfl, fun _ => rfl, ?_⟩
    rw [htold, plan, ← List.append_assoc]
    rfl

end Run

end LinearProgram
