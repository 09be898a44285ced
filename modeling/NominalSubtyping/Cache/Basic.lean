import NominalSubtyping.Graph.Reach
import NominalSubtyping.Journal.Event
import NominalSubtyping.Limits.Basic

/-!
# Caches

A *cache* is a type graph together with the traffic that filled it: how often the source was asked,
how often in vain, which names it was asked for, and a journal.

## Main definitions

* `Cache` : the graph and its traffic.
* `Cache.intern` : the node of a name, made and recorded if need be.
* `Cache.ask` : a counted question to the source.
* `Cache.rehearse` : an action on a copy of the graph.
* `Cache.eventsSince` : what was recorded since an earlier state.
-/

namespace NominalSubtyping

/-- A type graph with the traffic that filled it. -/
structure Cache where
  graph : TypeGraph
  /-- The limits for the walk through a reported hierarchy. -/
  limits : Limits
  /-- How often the source was asked. -/
  lookups : Nat := 0
  /-- How often the source did not know the name, or failed. -/
  failures : Nat := 0
  /-- The names the source was asked for, the newest first. -/
  asked : List String := []
  /-- What happened, the newest first. -/
  journal : List Event := []

/-- Actions on a cache. -/
abbrev CacheM := EStateM Fault Cache

/-- The size of a cache in figures. -/
structure Stats where
  nodes : Nat
  completeNodes : Nat
  edges : Nat
  lookups : Nat
  failures : Nat
  deriving DecidableEq, Repr

namespace Cache

/-- The cache of the primitive types, whose nodes are the first entries of its journal. -/
def new (limits : Limits) : Cache where
  graph := .primitives
  limits := limits
  journal := (Primitive.all.mapIdx fun id type => .created type.name id).reverse

/-- The size of a cache in figures. -/
def stats (cache : Cache) : Stats where
  nodes := cache.graph.size
  completeNodes := cache.graph.completeCount
  edges := cache.graph.edgeCount
  lookups := cache.lookups
  failures := cache.failures

/-- The events recorded since an earlier state, the oldest first. -/
def eventsSince (cache earlier : Cache) : List Event :=
  (cache.journal.take (cache.journal.length - earlier.journal.length)).reverse

/-- Runs an action on the graph. -/
@[inline]
def onGraph {α : Type} : GraphM α → CacheM α :=
  focus fun ⟨graph, limits, lookups, failures, asked, journal⟩ =>
    (graph, fun graph => ⟨graph, limits, lookups, failures, asked, journal⟩)

/-- Reads off the graph something that may be missing. -/
@[inline]
def inspect {α : Type} (read : TypeGraph → Except Fault α) : CacheM α := do
  MonadExcept.ofExcept (read (← get).graph)

/-- Adds an event to the journal. -/
def record (event : Event) : CacheM Unit :=
  modify fun cache => { cache with journal := event :: cache.journal }

/-- The node of `name`; a node that has to be made is recorded. -/
def intern (name : String) : CacheM NodeId := do
  match (← get).graph.lookup name with
  | some id => return id
  | none =>
    let id ← onGraph (TypeGraph.intern name)
    record (.created name id)
    return id

/-- Asks the source for `name`. -/
def ask (source : Source) (name : String) : CacheM Reply := do
  let asked := (← get).asked
  modify fun cache => { cache with lookups := cache.lookups + 1, asked := name :: cache.asked }
  return source asked name

/-- Counts a lookup that was in vain, and records why. -/
def fail (event : Event) : CacheM Unit := do
  modify fun cache => { cache with failures := cache.failures + 1 }
  record event

/-- Runs an action on a copy of the graph and its figures, and tells what the figures of the copy
became; the source and the journal are not copies. -/
def rehearse {α : Type} (action : CacheM α) : CacheM (α × Stats) := fun cache =>
  match action cache with
  | .ok value copy =>
    .ok (value, copy.stats) { cache with asked := copy.asked, journal := copy.journal }
  | .error fault copy => .error fault { cache with asked := copy.asked, journal := copy.journal }

end Cache

end NominalSubtyping
