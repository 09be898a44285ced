import NominalSubtyping.Proofs.Query.Demands
import NominalSubtyping.Proofs.Session.Transparency

/-!
# The order of work does not matter

Over a catalog, and with limits that leave room for all that it declares, the steps of a session can
be taken in any order: each question gets the same answer, and in the end the graph shows the same
names, edges and complete nodes. The numbers of the nodes do depend on the order.

The graph after a run can be told from what the steps demand, and what a step demands does not
depend on the steps before it. Where a question stops early, it does so in every order.

## Main results

* `Session.run_meets` : what a run demands of the cache.
* `Session.order_irrelevant` : the order of the steps does not matter.
-/

namespace NominalSubtyping.Session

open Cache (Faithful Meets Settled)

variable {config : Config} {catalog : Catalog} {session : Session}

/-- A question demands the same of every session. -/
theorem query_meets (config : Config) (hbuilt : catalog.Built) (relation : Relation)
    (left right : String) :
    ∃ demands, ∀ session, Over config catalog session →
      Meets catalog demands session.cache
        (finalState (query relation left right) session).cache := by
  obtain ⟨answer, demands, hanswers⟩ := Cache.withEngine_uniform hbuilt config relation left right
  refine ⟨demands, fun session h => ?_⟩
  have hasked := h.faithful.withEvent (.asked (session.queries + 1) relation left right)
  obtain ⟨later, hanswer, -, -, hmeets⟩ := hanswers hasked
  rw [← h.config_eq, ← h.source_eq] at hanswer
  rw [finalState_of_ok (query_eq_of_ok hanswer)]
  -- The entries in the journal leave the graph as it is.
  exact ⟨hmeets.contains_iff, hmeets.isComplete_iff⟩

theorem preload_meets (h : Over config catalog session) (hbuilt : catalog.Built) (name : String) :
    Meets catalog [.below name] session.cache (finalState (preload name) session).cache := by
  obtain ⟨outcome, later, hload, hloads⟩ :=
    Cache.load_loads h.faithful.wellFormed catalog.toSource name
  rw [finalState_preload, h.source_eq]
  dsimp only
  rw [finalState_of_ending hload]
  exact h.faithful.loads_meets hbuilt hloads

/-- A step demands the same of every session. -/
theorem Step.perform_meets (config : Config) (hbuilt : catalog.Built) (step : Step) :
    ∃ demands, ∀ session, Over config catalog session →
      Meets catalog demands session.cache (finalState step.perform session).cache := by
  cases step with
  | query relation left right =>
    simp only [perform, finalState_discard]
    exact query_meets config hbuilt relation left right
  | preload name =>
    simp only [perform, finalState_discard]
    exact ⟨[.below name], fun session h => preload_meets h hbuilt name⟩

/-- What a run demands of the cache is what its steps demand, each on its own. -/
theorem run_meets (config : Config) (hbuilt : catalog.Built) :
    ∃ demands : Step → List Demand, ∀ (steps : List Step) (session : Session),
      Over config catalog session →
      Meets catalog (steps.flatMap demands) session.cache (session.run steps).cache := by
  -- The demands of a step are chosen ahead of every run, so they are the same in each order.
  choose demands hdemands using Step.perform_meets config hbuilt
  refine ⟨demands, fun steps => ?_⟩
  induction steps with
  | nil => exact fun session _ => .of_graph_eq rfl
  | cons step steps ih =>
    intro session h
    exact (hdemands step session h).trans (ih _ (h.step hbuilt step))

/-- Over a catalog every cache of a session is faithful and settled. -/
theorem run_settled (hbuilt : catalog.Built) (hdepth : catalog.known.size < config.maxLoadDepth)
    (hiterations : catalog.edgeCount < config.maxLoadIterations)
    (hstart : start config catalog.toSource = .ok session) (steps : List Step) :
    Faithful catalog (session.run steps).cache ∧ Settled (session.run steps).cache := by
  refine run_invariant (P := fun cache => Faithful catalog cache ∧ Settled cache)
    ⟨Cache.faithful_new hdepth hiterations, Cache.settled_new _⟩ (fun _ h hstep => ?_) hstart steps
  exact ⟨(Cache.tracks_catalog hbuilt).step h.1 hstep, h.1.settled_step hbuilt h.2 hstep⟩

/-- The steps of a session may be taken in any order. Each question gets the same answer wherever it
stands in either order, and the graphs in the end are alike. -/
theorem order_irrelevant (hbuilt : catalog.Built)
    (hdepth : catalog.known.size < config.maxLoadDepth)
    (hiterations : catalog.edgeCount < config.maxLoadIterations) {steps steps' : List Step}
    (hperm : steps.Perm steps') :
    ∃ session, start config catalog.toSource = .ok session ∧
      (∀ relation left right, ∃ answer, ∀ before after,
        before ++ .query relation left right :: after ∈ [steps, steps'] →
        query relation left right (session.run before) =
          .ok answer (session.run (before ++ [.query relation left right]))) ∧
      (session.run steps).cache.graph.Alike (session.run steps').cache.graph := by
  obtain ⟨session, hstart, hover⟩ := start_over hbuilt hdepth hiterations
  refine ⟨session, hstart, fun relation left right => ?_, ?_⟩
  · refine ⟨Ideal.answer config catalog.Below config.maxGenericDepth relation left right, ?_⟩
    intro before after _
    obtain ⟨later, hquery, -⟩ := (hover.run hbuilt before).query hbuilt relation left right
    rw [run_query hquery]
    exact hquery
  · obtain ⟨demands, hmeets⟩ := run_meets config hbuilt
    have hsettled := run_settled hbuilt hdepth hiterations hstart
    exact (hmeets steps session hover).alike (hmeets steps' session hover)
      (fun demand => (hperm.flatMap_right demands).mem_iff) (hsettled steps) (hsettled steps')

/-- Two types that are each below the other, and a type below both. In the second order the cycle is
entered from its other side, and the type below it is loaded before the cycle. -/
theorem order_irrelevant_cycle :
    let catalog := ((Catalog.declare {} "A" "B").declare "B" "A").declare "C" "B"
    let config : Config := { maxLoadDepth := 4, maxLoadIterations := 4 }
    let steps : List Step :=
      [.query .subtype "C<A>" "A<B>", .preload "C", .query (.common true false) "C<A>" "B<A>",
        .query .subtype "A" "B<"]
    let steps' : List Step :=
      [.query .subtype "A" "B<", .preload "C", .query (.common true false) "C<A>" "B<A>",
        .query .subtype "C<A>" "A<B>"]
    catalog.Built ∧ catalog.known.size < config.maxLoadDepth ∧
      catalog.edgeCount < config.maxLoadIterations ∧ steps.Perm steps' ∧
      ∃ session, start config catalog.toSource = .ok session ∧
        (∀ relation left right, ∃ answer, ∀ before after,
          before ++ .query relation left right :: after ∈ [steps, steps'] →
          query relation left right (session.run before) =
            .ok answer (session.run (before ++ [.query relation left right]))) ∧
        (session.run steps).cache.graph.Alike (session.run steps').cache.graph :=
  have hbuilt : (((Catalog.declare {} "A" "B").declare "B" "A").declare "C" "B").Built :=
    ((Catalog.Built.empty.declare "A" "B").declare "B" "A").declare "C" "B"
  ⟨hbuilt, by decide +kernel, by decide +kernel, by decide,
    order_irrelevant hbuilt (by decide +kernel) (by decide +kernel) (by decide)⟩

/-- Graphs that are alike need not be the same: the node that is made first gets the first
number. -/
example :
    let catalog := (Catalog.declareType {} "A").declareType "B"
    let config : Config := { preloadRoot := false }
    ((start config catalog.toSource).map fun session =>
        let graph := (session.run [.preload "A", .preload "B"]).cache.graph
        let graph' := (session.run [.preload "B", .preload "A"]).cache.graph
        (graph.lookup "A", graph'.lookup "A")).toOption = some (some 8, some 9) := by
  decide +kernel

end NominalSubtyping.Session
