import NominalSubtyping.Cache.Walk

/-!
# Loading the types below a name

A *load* makes sure that everything below a type is in the graph. It asks the source only if the
type is not complete. A source that does not know the name, or fails, leaves the type as it is, to
be asked again by the next load; neither is an error to the caller.

## Main definitions

* `Cache.incorporate` : takes over a reported hierarchy.
* `Cache.load` : loads everything below a name.
-/

namespace NominalSubtyping

namespace Cache

/-- Runs a walk under a new guard, and gives the guard back. -/
def guarded {α : Type} (action : WalkM α) : CacheM (α × Guard NodeId) := fun cache =>
  match action ⟨cache, { limits := cache.limits }⟩ with
  | .ok value ⟨cache, guard⟩ => .ok (value, guard) cache
  | .error fault ⟨cache, _⟩ => .error fault cache

/-- Takes over the hierarchy that was reported for the type `name` with node `id`. -/
def incorporate (name : String) (id : NodeId) (snapshot : Snapshot) : CacheM LoadStatus := do
  let before := (← get).graph.size
  let maxDepth := (← get).limits.maxDepth
  let (_, guard) ← guarded (Walk.walk snapshot maxDepth name id)
  MonadExcept.ofExcept guard.close
  if guard.exceeded then
    record (.truncated name maxDepth)
    return .truncated
  else
    let added := (← get).graph.size - before
    record (.loaded name added)
    return .loaded added

/-- Loads everything below the type `name`. -/
def load (source : Source) (name : String) : CacheM LoadStatus := do
  let id ← intern name
  let node ← inspect (·.node id)
  if node.complete then
    return .alreadyComplete
  else
    match ← ask source name with
    | .found snapshot => incorporate name id snapshot
    | .unknown =>
      fail (.unresolved name)
      return .unresolved
    | .failed error =>
      fail (.lookupFailed name error)
      return .failed
    | .crashed message => throw (.crashed message)

end Cache

end NominalSubtyping
