/-!
# Faults

A *fault* ends a step without an answer: either a promise between two parts of the library was
broken, or the source of type information crashed while it was being asked. A fault is no verdict
about types; the state keeps what the step had done up to the fault, and later steps go on from
there.
-/

namespace NominalSubtyping

/-- The reasons why a step ends without an answer. -/
inductive Fault where
  /-- A guard was asked to leave a key that it is not visiting. -/
  | notVisiting
  /-- A guard was given up while `count` keys were being visited. -/
  | stillVisiting (count : Nat)
  /-- A counter was asked to leave at depth zero. -/
  | counterAtZero
  /-- A counter was given up at a depth above zero. -/
  | counterNotZero (depth : Nat)
  /-- A node `id` was accessed that a graph of `size` nodes does not have. -/
  | noSuchNode (size id : Nat)
  /-- One half of an edge was new and the other was not. -/
  | halfEdge (down up : Bool)
  /-- A recursion went on after its room was used up. -/
  | outOfRoom
  /-- Code outside the library crashed. -/
  | crashed (message : String)
  deriving DecidableEq, Repr

namespace Fault

/-- The text of a truth value in a fault message. -/
private def truth (b : Bool) : String := if b then "true" else "false"

/-- The text shown to the user. -/
def message : Fault → String
  | notVisiting =>
    "RecursionGuard::leave() called with a key that is not in the visiting set."
  | stillVisiting count =>
    "RecursionGuard dropped with " ++ toString count
      ++ " active entries still in the visiting set."
  | counterAtZero => "DepthCounter::leave() called at depth 0."
  | counterNotZero depth =>
    "DepthCounter dropped with depth " ++ toString depth ++ ". Leaked enter() calls."
  | noSuchNode size id =>
    "index out of bounds: the len is " ++ toString size ++ " but the index is " ++ toString id
  | halfEdge down up =>
    "assertion `left == right` failed: type graph edges out of sync\n  left: " ++ truth down
      ++ "\n right: " ++ truth up
  | outOfRoom => "recursion went deeper than its limit"
  | crashed message => message

end Fault

end NominalSubtyping
