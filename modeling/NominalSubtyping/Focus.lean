/-!
# Actions on a part of the state

The state of the library is layered: a session holds a cache, a cache holds a graph. An action that
only knows the inner layer runs on the outer one by a *focus*: the outer state is taken apart into
the inner one and a way to put a changed inner one back. The inner state is put back also when the
action fails, so that a failure loses nothing.
-/

namespace NominalSubtyping

variable {ε σ τ α : Type}

/-- Runs an action on the part of the state that `split` takes out. -/
@[inline]
def focus (split : σ → τ × (τ → σ)) (action : EStateM ε τ α) : EStateM ε σ α := fun state =>
  match split state with
  | (part, restore) =>
    match action part with
    | .ok value part => .ok value (restore part)
    | .error failure part => .error failure (restore part)

/-- The state that an action leaves behind, whether it fails or not. -/
def finalState (action : EStateM ε σ α) (state : σ) : σ :=
  match action state with
  | .ok _ state | .error _ state => state

end NominalSubtyping
