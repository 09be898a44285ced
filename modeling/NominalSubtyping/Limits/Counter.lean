import NominalSubtyping.Fault
import NominalSubtyping.Limits.Basic

/-!
# Counters

A *counter* bounds how deep a recursion nests and knows nothing else about it. It serves the
comparison of type arguments, where the same pair may rightly be compared more than once.

## Main definitions

* `Counter.enter`, `Counter.leave` : one level down, one level up.
* `Counter.room` : the number of levels that are left.
* `Counter.close` : gives the counter up, which is a fault above depth zero.
-/

namespace NominalSubtyping

/-- A nesting depth with its bound. -/
structure Counter where
  maxDepth : Nat
  depth : Nat := 0
  /-- Whether the bound has ever refused a level. -/
  exceeded : Bool := false
  deriving DecidableEq, Repr

namespace Counter

/-- The number of levels that are left. -/
def room (counter : Counter) : Nat :=
  counter.maxDepth - counter.depth

/-- Goes one level down, or refuses at the bound. -/
def enter (counter : Counter) : Bool × Counter :=
  if counter.maxDepth ≤ counter.depth then (false, { counter with exceeded := true })
  else (true, { counter with depth := counter.depth + 1 })

/-- Goes one level up. -/
def leave (counter : Counter) : Except Fault Counter :=
  if counter.depth = 0 then .error .counterAtZero
  else .ok { counter with depth := counter.depth - 1 }

/-- The bound is the greatest depth. -/
theorem depth_le_of_enter {counter inner : Counter} (h : counter.enter = (true, inner)) :
    inner.depth ≤ counter.maxDepth := by
  rw [enter] at h
  split at h
  · cases h
  · obtain rfl := (Prod.mk.inj h).2
    exact Nat.lt_of_not_le ‹_›

/-- Gives the counter up. -/
def close (counter : Counter) : Except Fault Unit :=
  if counter.depth = 0 then .ok () else .error (.counterNotZero counter.depth)

end Counter

end NominalSubtyping
