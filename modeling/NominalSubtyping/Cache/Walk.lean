import NominalSubtyping.Cache.Basic
import NominalSubtyping.Limits.Guard

/-!
# Walking through a reported hierarchy

A snapshot is taken over by a depth-first *walk* under a guard: each type on the way gets a node,
and each reported edge is recorded in the graph. A node that is complete is not walked again. When
the walk of a node is over and nothing below it was refused by a limit, the node is marked complete.
A node that is met again while it is still being walked counts as complete, since the walk that is
under way takes care of it.

## Main definitions

* `Walk.approach` : decides whether a node has to be walked.
* `Walk.walk` : the walk.
-/

namespace NominalSubtyping

/-- A cache that is being filled, with the guard of the walk. -/
structure Walk where
  cache : Cache
  guard : Guard NodeId

/-- Actions of a walk. -/
abbrev WalkM := EStateM Fault Walk

namespace Walk

/-- Runs an action on the cache. -/
@[inline]
def onCache {α : Type} : CacheM α → WalkM α :=
  focus fun ⟨cache, guard⟩ => (cache, fun cache => ⟨cache, guard⟩)

/-- Attempts to visit a node. -/
def enter (id : NodeId) : WalkM Entry := fun ⟨cache, guard⟩ =>
  match guard.enter id with
  | (entry, guard) => .ok entry ⟨cache, guard⟩

/-- Ends the visit of a node. -/
def leave (id : NodeId) : WalkM Unit :=
  focus (fun ⟨cache, guard⟩ => (guard, fun guard => ⟨cache, guard⟩)) (Guard.release id)

/-- Decides whether a node has to be walked: `none` if so, and otherwise whether it counts as
complete. -/
def approach (id : NodeId) : WalkM (Option Bool) := do
  let node ← onCache (Cache.inspect (·.node id))
  if node.complete then
    return some true
  else
    match ← enter id with
    | .entered => return none
    | .cycle => return some true
    | .depthExceeded | .iterationExceeded => return some false

/-- Takes over everything that `snapshot` reports below the type `name` with node `id`, and tells
whether the node counts as complete. The walk has room for `room` levels, and it is a fault to go
deeper; a guard whose depth limit leaves no more room than that refuses the next level first. -/
def walk (snapshot : Snapshot) : (room : Nat) → (name : String) → (id : NodeId) → WalkM Bool
  | 0, _, id => do
    match ← approach id with
    | some complete => return complete
    | none => throw .outOfRoom
  | room + 1, name, id => do
    match ← approach id with
    | some complete => return complete
    | none =>
      let complete ← (snapshot.directSubtypes name).foldlM (fun complete sub => do
        let subId ← onCache (Cache.intern sub)
        onCache (Cache.onGraph (TypeGraph.link id subId))
        let below ← walk snapshot room sub subId
        return complete && below) true
      leave id
      if complete then
        onCache (Cache.onGraph (TypeGraph.markComplete id))
      return complete

end Walk

end NominalSubtyping
