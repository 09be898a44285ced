import NominalSubtyping.Focus

/-!
# Running actions step by step

An action that is put together from smaller ones is followed through one of its runs: once it is
known what the first part does to the state, the rest goes on from there.
-/

namespace NominalSubtyping

variable {ε σ τ α β : Type}

theorem bind_eq_of_ok {action : EStateM ε σ α} {next : α → EStateM ε σ β} {state state' : σ}
    {value : α} (h : action state = .ok value state') :
    (action >>= next) state = next value state' := by
  change EStateM.bind action next state = _
  rw [EStateM.bind, h]

theorem bind_eq_of_error {action : EStateM ε σ α} {next : α → EStateM ε σ β} {state state' : σ}
    {failure : ε} (h : action state = .error failure state') :
    (action >>= next) state = .error failure state' := by
  change EStateM.bind action next state = _
  rw [EStateM.bind, h]

/-- The state is looked at first. -/
theorem get_bind_eq (next : σ → EStateM ε σ α) (state : σ) :
    (get >>= next) state = next state state :=
  rfl

/-- The state is changed first. -/
theorem modify_bind_eq (change : σ → σ) (next : PUnit → EStateM ε σ α) (state : σ) :
    (modify change >>= next) state = next ⟨⟩ (change state) :=
  rfl

theorem discard_eq_of_ok {action : EStateM ε σ α} {state state' : σ} {value : α}
    (h : action state = .ok value state') : discard action state = .ok ⟨⟩ state' := by
  change EStateM.map _ action state = _
  rw [EStateM.map, h]

theorem finalState_of_ok {action : EStateM ε σ α} {state state' : σ} {value : α}
    (h : action state = .ok value state') : finalState action state = state' := by
  rw [finalState, h]

theorem finalState_of_error {action : EStateM ε σ α} {state state' : σ} {failure : ε}
    (h : action state = .error failure state') : finalState action state = state' := by
  rw [finalState, h]

theorem finalState_discard (action : EStateM ε σ α) (state : σ) :
    finalState (discard action) state = finalState action state := by
  cases haction : action state with
  | ok value later =>
    rw [finalState_of_ok haction, finalState_of_ok (discard_eq_of_ok haction)]
  | error failure later =>
    have hdiscard : discard action state = .error failure later := by
      change EStateM.map _ action state = _
      rw [EStateM.map, haction]
    rw [finalState_of_error haction, finalState_of_error hdiscard]

/-- The state after two actions is that after the second one, if it is reached. -/
theorem finalState_bind (action : EStateM ε σ α) (next : α → EStateM ε σ β) (state : σ) :
    finalState (action >>= next) state =
      match action state with
      | .ok value state' => finalState (next value) state'
      | .error _ state' => state' := by
  rw [finalState]
  change (match EStateM.bind action next state with
    | .ok _ state | .error _ state => state) = _
  rw [EStateM.bind]
  cases action state <;> rfl

/-- An action on a part of the state leaves that part behind as it would by itself. -/
theorem finalState_focus (split : σ → τ × (τ → σ)) (action : EStateM ε τ α) (state : σ) :
    finalState (focus split action) state =
      (split state).2 (finalState action (split state).1) := by
  rw [finalState, finalState, focus]
  cases hsplit : split state with
  | mk part restore =>
    dsimp only
    cases action part <;> rfl

/-- The way in which an action ends, with a value or with a failure, in a given state. -/
def ending (outcome : Except ε α) (state : σ) : EStateM.Result ε σ α :=
  match outcome with
  | .ok value => .ok value state
  | .error failure => .error failure state

theorem ending_inj {outcome outcome' : Except ε α} {state state' : σ}
    (h : ending outcome state = ending outcome' state') : outcome = outcome' ∧ state = state' := by
  cases outcome <;> cases outcome' <;> cases h <;> exact ⟨rfl, rfl⟩

/-- An action with a value ends with it. -/
theorem eq_ok_of_run' {action : EStateM ε σ α} {state : σ} {value : α}
    (h : action.run' state = some value) : action state = .ok value (finalState action state) := by
  change (match action state with
    | .ok value _ => some value
    | .error _ _ => none) = some value at h
  rw [finalState]
  cases hend : action state with
  | ok value' state' =>
    rw [hend] at h
    rw [Option.some.inj h]
  | error failure state' =>
    rw [hend] at h
    cases h

theorem finalState_of_ending {action : EStateM ε σ α} {state state' : σ} {outcome : Except ε α}
    (h : action state = ending outcome state') : finalState action state = state' := by
  cases outcome with
  | ok value => exact finalState_of_ok h
  | error failure => exact finalState_of_error h

end NominalSubtyping
