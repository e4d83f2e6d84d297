/-!
# `LinearProgram.Action`: operations that may fail and leave a state

Reading a model and driving a backend have one thing in common: an
operation changes a state, may fail, and leaves what it changed behind
even if it fails. An `Action` is such an operation, and actions are
done one after another until one fails.

* `pure_apply`, `bind_apply`, `throw_apply` and `each_cons_apply` say
  what a composed action does to a state.
-/

set_option autoImplicit false

namespace LinearProgram

/-- An operation on a state `σ` that may fail with `ε`, and the state
that it leaves in either case. -/
def Action (σ ε α : Type) : Type := σ → Except ε α × σ

namespace Action

variable {σ ε α β : Type}

/-- Does nothing and gives a value. -/
def done (a : α) : Action σ ε α := fun s => (.ok a, s)

/-- Fails without touching the state. -/
def fail (e : ε) : Action σ ε α := fun s => (.error e, s)

/-- Does one thing and, unless it failed, what follows from its value. -/
def andThen (x : Action σ ε α) (f : α → Action σ ε β) : Action σ ε β := fun s =>
  match x s with
  | (.ok a, s) => f a s
  | (.error e, s) => (.error e, s)

instance : Monad (Action σ ε) where
  pure := done
  bind := andThen

instance : MonadExceptOf ε (Action σ ε) where
  throw := fail
  tryCatch x handle := fun s =>
    match x s with
    | (.ok a, s) => (.ok a, s)
    | (.error e, s) => handle e s

/-- Changes the state and gives a value. -/
def step (f : σ → α × σ) : Action σ ε α := fun s => (.ok (f s).1, (f s).2)

/-- Changes the state. -/
def change (f : σ → σ) : Action σ ε Unit := fun s => (.ok (), f s)

/-- The outcome of something that has no state, with its error renamed. -/
def lift {δ : Type} (wrap : δ → ε) : Except δ α → Action σ ε α
  | .ok a => done a
  | .error e => fail (wrap e)

/-- Does something for each member of a list, up to the first failure. -/
def each (f : α → Action σ ε Unit) : List α → Action σ ε Unit
  | [] => done ()
  | x :: rest => andThen (f x) fun _ => each f rest

@[simp] theorem pure_apply (a : α) (s : σ) : (pure a : Action σ ε α) s = (.ok a, s) := rfl

@[simp] theorem throw_apply (e : ε) (s : σ) : (throw e : Action σ ε α) s = (.error e, s) := rfl

theorem bind_apply (x : Action σ ε α) (f : α → Action σ ε β) (s : σ) :
    (x >>= f) s = match x s with
      | (.ok a, s) => f a s
      | (.error e, s) => (.error e, s) := rfl

theorem each_cons_apply (f : α → Action σ ε Unit) (x : α) (rest : List α) (s : σ) :
    each f (x :: rest) s = match f x s with
      | (.ok (), s) => each f rest s
      | (.error e, s) => (.error e, s) := by
  simp only [each, andThen]
  rcases f x s with ⟨_ | _, _⟩ <;> rfl

end Action

end LinearProgram
