import NominalSubtyping.Proofs.Cache.Loads

/-!
# What is done to a cache

Three things are done to a cache from outside, whatever the source replies: a name gets a node, a
name is loaded, and an event that is not about the graph is recorded. These are the *steps*. What
every step keeps is kept along every path of steps.

## Main definitions

* `Cache.Step` : one thing that is done to a cache.

## Main results

* `Cache.Step.grows`, `Cache.Step.wellFormed` : a step loses nothing and keeps the graph
  well-formed.
* `Cache.grows_of_path`, `Cache.wellFormed_of_path` : so does a path of steps.
-/

open Relation (ReflTransGen)

namespace NominalSubtyping

variable {source : Source} {cache later : Cache}

/-- One thing that is done to a cache. -/
inductive Cache.Step (source : Source) (cache : Cache) : Cache → Prop
  | node (name : String) : Step source cache (cache.withNode name)
  | event {event : Event} (h : event.channel ≠ .graph) : Step source cache (cache.withEvent event)
  | load {name : String} {outcome : Except Fault LoadStatus} {later : Cache}
      (h : Cache.Loads source name cache outcome later) : Step source cache later

namespace Cache.Step

variable (hstep : Step source cache later) (h : cache.graph.WellFormed)

include hstep h

theorem grows : cache.Grows later := by
  cases hstep with
  | node name => exact cache.grows_withNode name
  | event => exact cache.grows_withEvent _
  | load hload => exact hload.grows h

theorem wellFormed : later.graph.WellFormed := by
  cases hstep with
  | node name => exact wellFormed_withNode h name
  | event => exact h
  | load hload => exact hload.wellFormed h

end Cache.Step

theorem Cache.wellFormed_of_path (h : ReflTransGen (Step source) cache later)
    (hwf : cache.graph.WellFormed) : later.graph.WellFormed := by
  induction h with
  | refl => exact hwf
  | tail _ hstep ih => exact hstep.wellFormed ih

/-- A path of steps loses nothing. -/
theorem Cache.grows_of_path (h : ReflTransGen (Step source) cache later)
    (hwf : cache.graph.WellFormed) : cache.Grows later := by
  induction h with
  | refl => exact .refl cache
  | tail hpath hstep ih => exact ih.trans (hstep.grows (wellFormed_of_path hpath hwf))

end NominalSubtyping
