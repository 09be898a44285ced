import NominalSubtyping.Proofs.Cache.Honesty
import NominalSubtyping.Proofs.Session.Run
import NominalSubtyping.Source.Catalog
import NominalSubtyping.Source.Script

/-!
# Complete nodes in a session

Whatever a source replies, and whatever was done in a session, everything below a complete node is
complete as long as no load was cut short. Once a load has been cut short on a report of an edge,
the subtype can be incomplete below a complete supertype: if this load passed over it in a cycle,
where the subtype is also above the supertype, or if the source took the edge back in a later
report. There is no third way. The node that a limit stops the walk of is always left incomplete,
and is asked for again.

## Main results

* `Session.complete_below_complete` : how far a complete node can be relied on.
* `Session.complete_below_complete_cycle` : a cycle with a complete node above an incomplete one.
-/

open Relation (ReflTransGen)

namespace NominalSubtyping

namespace Cache

variable {source : Source} {cache later : Cache} {name : String}

/-- What the downward search lists below a complete node is complete, if no edge there has an
excuse. -/
theorem Honest.completeAt_of_closure (h : Honest source cache)
    (hexcuse : ∀ sup sub, cache.graph.LiesBelow sup name → cache.graph.HasEdge sup sub →
      ¬ Excused source cache sup sub)
    (hcomplete : cache.graph.isComplete name = true)
    {id : NodeId} (hid : cache.graph.lookup name = some id) :
    ∃ closure, cache.graph.subtypeClosure id = .ok closure ∧
      ∀ other ∈ closure, cache.graph.completeAt other = true := by
  have hwf := h.wellFormed
  obtain ⟨closure, hclosure, -, hlt, hmem⟩ := TypeGraph.subtypeClosure_eq hwf hid
  refine ⟨closure, hclosure, fun other hother => ?_⟩
  obtain ⟨sub, hname⟩ := TypeGraph.WellFormed.exists_name (hlt other hother)
  have hsub := (hwf.lookup_iff sub other).2 hname
  have hbelow := (hmem sub other hsub).1 hother
  obtain ⟨other', hsub', hc⟩ :=
    TypeGraph.isComplete_eq_true_iff.1 (h.isComplete_of_liesBelow hexcuse hcomplete hbelow)
  rwa [Option.some.inj (hsub.symm.trans hsub')]

/-- A type whose load was cut short is asked for by the next load. -/
theorem asked_of_load_truncated (hwf : cache.graph.WellFormed)
    (h : load source name cache = .ok .truncated later) :
    later.graph.isComplete name = false ∧
      (finalState (load source name) later).asked = name :: later.asked := by
  have hloads : Loads source name cache (.ok .truncated) later := loads_of_load_eq hwf h
  have hincomplete : later.graph.isComplete name = false := hloads.isComplete_eq hwf
  refine ⟨hincomplete, ?_⟩
  obtain ⟨outcome, last, hagain, hloads'⟩ := load_loads (hloads.wellFormed hwf) source name
  rw [finalState_of_ending hagain]
  exact hloads'.asked_eq (hloads.wellFormed hwf) hincomplete

end Cache

namespace Session

variable {config : Config} {source : Source} {session : Session}

/-- In a session every cache is honest. -/
theorem run_honest (hstart : start config source = .ok session) (steps : List Step) :
    Cache.Honest source (session.run steps).cache :=
  run_invariant (P := Cache.Honest source) (Cache.honest_new source _)
    (fun _ h hstep => h.step hstep) hstart steps

/-- A direct subtype of a complete node is complete, or there is an excuse: a load was cut short on
a report of the edge, and either this load passed over the subtype and the edge lies on a cycle, or
the source took the edge back in a later report. If no edge below a complete node has an excuse, all
that is listed below this node is complete. A walk that is cut short leaves its node incomplete. If
a load is cut short, now or after more steps, its type is incomplete, and the next load asks the
source for it again. -/
theorem complete_below_complete (hstart : start config source = .ok session) (steps : List Step) :
    let cache := (session.run steps).cache
    (∀ sup sub, cache.graph.isComplete sup = true → cache.graph.HasEdge sup sub →
        cache.graph.isComplete sub = true ∨ Cache.Excused source cache sup sub) ∧
      (∀ name id, cache.graph.lookup name = some id → cache.graph.isComplete name = true →
        (∀ sup sub, cache.graph.LiesBelow sup name → cache.graph.HasEdge sup sub →
          ¬ Cache.Excused source cache sup sub) →
        ∃ closure, cache.graph.subtypeClosure id = .ok closure ∧
          ∀ other ∈ closure, cache.graph.completeAt other = true) ∧
      (∀ (snapshot : Snapshot) (room : Nat) (name : String) (id : NodeId) (walk later : Walk),
        walk.Sound → walk.graph.lookup name = some id →
        walk.guard.limits.maxDepth ≤ walk.guard.depth + room →
        Walk.walk snapshot room name id walk = .ok false later →
        later.graph.completeAt id = false) ∧
      ∀ middle, ReflTransGen (Cache.Step source) cache middle → ∀ name later,
        Cache.load source name middle = .ok .truncated later →
        later.graph.isComplete name = false ∧
          (finalState (Cache.load source name) later).asked = name :: later.asked := by
  have hhonest := run_honest hstart steps
  refine ⟨fun sup sub hc he => hhonest.honest hc he, ?_, ?_, ?_⟩
  · intro name id hid hc hexcuse
    exact hhonest.completeAt_of_closure hexcuse hc hid
  · intro snapshot room name id walk later hs hid hroom hwalk
    exact Walk.completeAt_of_walk_eq_false hs hid hroom hwalk
  · intro middle hpath name later hload
    exact Cache.asked_of_load_truncated (Cache.wellFormed_of_path hpath hhonest.wellFormed) hload

/-- Two types that are each below the other: the walk of `B` counts `A` as complete, and `A` is then
cut short at `C`. -/
theorem complete_below_complete_cycle :
    let catalog := ((Catalog.declare {} "B" "A").declare "C" "A").declare "A" "B"
    let config : Config := { preloadRoot := false, maxLoadIterations := 3 }
    ∃ session, start config catalog.toSource = .ok session ∧
      let cache := (session.run [.preload "A"]).cache
      cache.graph.isComplete "B" = true ∧ cache.graph.HasEdge "B" "A" ∧
        cache.graph.isComplete "A" = false ∧
        Cache.Excused catalog.toSource cache "B" "A" := by
  intro catalog config
  refine ⟨_, rfl, ?_⟩
  intro cache
  have hcomplete : cache.graph.isComplete "B" = true := by decide +kernel
  have hincomplete : cache.graph.isComplete "A" = false := by decide +kernel
  have hedge : cache.graph.HasEdge "B" "A" :=
    ⟨9, 8, by decide +kernel, by decide +kernel, by decide +kernel⟩
  refine ⟨hcomplete, hedge, hincomplete, ?_⟩
  have hstart : start config catalog.toSource = .ok _ := rfl
  refine ((complete_below_complete hstart [.preload "A"]).1 "B" "A" hcomplete hedge).resolve_left ?_
  rw [hincomplete]
  exact Bool.false_ne_true

/-- The source takes back the edge at which the first load was cut short. -/
example :
    let script : Script := { responses := [("A", [.hierarchy [("B", "A")], .hierarchy []])] }
    let config : Config := { preloadRoot := false, maxLoadIterations := 1 }
    ((start config script.toSource).map fun session =>
        let graph := (session.run [.preload "A", .preload "A"]).cache.graph
        (graph.isComplete "A", graph.isComplete "B", (graph.lookup "A").map graph.subtypesOf,
          graph.lookup "B")).toOption =
      some (true, false, some [9], some 9) := by
  decide +kernel

end Session

end NominalSubtyping
