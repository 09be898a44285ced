import NominalSubtyping.Proofs.Session.Stability
import NominalSubtyping.Proofs.TypeUse.Bytes

/-!
# Sessions without faults

A fault ends a step without an answer. The library promises itself that this does not happen: a
guard is left by those who entered it and given up when nothing is being visited, a counter goes up
as often as it went down, the two halves of an edge are recorded together, and nodes are only looked
up by numbers that the graph has issued. These promises are kept whatever the source replies,
whatever the limits are and whatever texts are compared, and the texts are only cut where they can
be cut. What is left is the crash of a source.

## Main results

* `Session.exists_start`, `Session.Step.perform_leads` : a session begins, and each of its steps
  ends with a value, unless the source crashes.
* `Session.never_at_fault` : with a source that never crashes, no step ends with a fault.
-/

namespace NominalSubtyping.Session

open Cache (Tracks)

variable {config : Config} {source : Source} {session : Session} {fit : Cache → Prop}
  {below : Cache → (sub sup : String) → Prop}

theorem onCache_leads {α : Type} {action : CacheM α} {post : α → Cache → Prop}
    (h : Leads source fit id action session.cache post) :
    Leads source fit cache (onCache action) session fun value later => post value later.cache := by
  rcases h.cases with ⟨value, later, haction, hfit, hextend, hpost⟩ |
    ⟨fault, later, haction, hfit, hextend, hcrash⟩
  · exact .of_ok (onCache_eq_of_ok haction) hfit hextend hpost
  · exact .of_error (onCache_eq_of_error haction) hfit hextend hcrash

/-- A step ends with a value, unless the source crashes. -/
theorem Step.perform_leads (ht : Tracks session.source fit below) (hfit : fit session.cache)
    (step : Step) : Leads session.source fit cache step.perform session fun _ _ => True := by
  cases step with
  | query relation left right =>
    exact (query_leads ht hfit relation left right).discard.mono fun _ _ _ => trivial
  | preload name =>
    have hload : Leads session.source fit cache (onCache (Cache.load session.source name)) session
        fun _ _ => True :=
      (onCache_leads (ht.load_leads hfit name)).mono fun _ _ _ => trivial
    have hpreload : Leads session.source fit cache (Session.preload name) session fun _ _ => True :=
      hload
    exact hpreload.discard.mono fun _ _ _ => trivial

/-- A session begins, if the source never crashes. -/
theorem exists_start (config : Config)
    (hsource : ∀ asked name message, source asked name ≠ .crashed message) :
    ∃ session, start config source = .ok session := by
  have hroot {cache : Cache} (hwf : cache.graph.WellFormed) :=
    (preloadRoot_leads (Cache.tracks_graph source) hwf config).exists_ok hsource
  obtain ⟨_, later, hloaded, -⟩ := hroot (Cache.wellFormed_new config.loadLimits)
  rw [start]
  dsimp only
  rw [hloaded]
  split
  · exact ⟨_, rfl⟩
  · exact ⟨_, rfl⟩

/-- With a source that never crashes, a session begins, and every step ends with a value, as does
the listing of subtypes; names stand for nodes that the graph has; no guard of a load and no counter
of arguments goes deeper than its limit, which keeps depths in the range of limits; and no text is
cut where it cannot be cut. -/
theorem never_at_fault (config : Config)
    (hsource : ∀ asked name message, source asked name ≠ .crashed message) :
    (∃ session, start config source = .ok session ∧ ∀ steps : List Step,
      let reached := session.run steps
      (∀ step : Step, ∃ later, step.perform reached = .ok ⟨⟩ later) ∧
        (∀ name, ∃ names, inspect (·.subtypeNames name) reached = .ok names reached) ∧
        (∀ name id, reached.cache.graph.lookup name = some id →
          ∃ node, reached.cache.graph.node id = .ok node) ∧
        ∀ (guard after : Guard NodeId) (id : NodeId), guard.limits = reached.cache.limits →
          guard.enter id = (.entered, after) → after.depth ≤ config.maxLoadDepth) ∧
      (∀ counter after : Counter, counter.maxDepth = config.maxGenericDepth →
        counter.enter = (true, after) → after.depth ≤ config.maxGenericDepth) ∧
      ∀ text, TypeUse.parseBytes text = some (TypeUse.parse text) ∧
        splitArgumentBytes text = some (splitArguments text) := by
  refine ⟨?_, ?_, fun text => ⟨TypeUse.parseBytes_eq text, splitArgumentBytes_eq text⟩⟩
  · obtain ⟨session, hstart⟩ := exists_start config hsource
    refine ⟨session, hstart, fun steps => ?_⟩
    intro reached
    have hfollows := run_follows (start_wellFormed hstart) steps
    have hwf : reached.cache.graph.WellFormed := hfollows.wellFormed (start_wellFormed hstart)
    have hsame : reached.source = source := hfollows.source_eq.trans (start_path hstart).2.1
    refine ⟨fun step => ?_, fun name => ?_, fun name id hid => ?_,
      fun guard after id hlimits henter => ?_⟩
    · have hleads := step.perform_leads (Cache.tracks_graph reached.source) hwf
      obtain ⟨⟨⟩, later, hstep, -⟩ := hleads.exists_ok (hsame ▸ hsource)
      exact ⟨later, hstep⟩
    · obtain ⟨names, hnames⟩ := TypeGraph.subtypeNames_eq hwf name
      exact ⟨names, onCache_eq_of_ok (Cache.inspect_eq_of_ok _ hnames)⟩
    · obtain ⟨node, hnode, -⟩ := TypeGraph.node_eq_ok (hwf.lt_size hid)
      exact ⟨node, hnode⟩
    · have hgrows := hfollows.grows (start_wellFormed hstart)
      have hstarted := Cache.grows_of_path (start_path hstart).2.2 (Cache.wellFormed_new _)
      have hdepth := Guard.depth_le_of_enter henter
      rwa [hlimits, hgrows.limits_eq, hstarted.limits_eq] at hdepth
  · intro counter after hmax henter
    rw [← hmax]
    exact Counter.depth_le_of_enter henter

/-- A source that fails and reports a cycle in turn: the first load fails, the second is cut short
in the cycle and adds two edges to those of the primitive types, and the arguments of the question
go as deep as the limit. -/
theorem never_at_fault_cycle :
    let source : Source := fun asked name =>
      if asked.length % 2 = 0 then .failed (.disconnected name)
      else .found ⟨name, .ofEdges [("B", name), ("C", "B"), (name, "C")]⟩
    let config : Config :=
      { preloadRoot := false, maxLoadDepth := 2, maxLoadIterations := 8, maxGenericDepth := 1 }
    let steps : List Step := [.preload "A", .preload "A", .query .subtype "B<C>" "A<A>"]
    (∀ asked name message, source asked name ≠ .crashed message) ∧
      ∃ session, start config source = .ok session ∧
        let reached := session.run steps
        reached.cache.graph.edgeCount = 10 ∧
        (∃ later, (Step.query .subtype "é<A>,<" "B<ß>").perform reached = .ok ⟨⟩ later) ∧
        (∃ later, (Step.preload "A").perform reached = .ok ⟨⟩ later) ∧
        (∃ names, inspect (·.subtypeNames "B") reached = .ok names reached) ∧
        ∀ (guard after : Guard NodeId) (id : NodeId), guard.limits = reached.cache.limits →
          guard.enter id = (.entered, after) → after.depth ≤ 2 := by
  intro source config steps
  have hsource : ∀ asked name message, source asked name ≠ .crashed message := by
    intro asked name message
    simp only [source]
    split <;> exact nofun
  obtain ⟨⟨session, hstart, hsteps⟩, -⟩ := never_at_fault config hsource
  have hedges : ((start config source).map fun session =>
      (session.run steps).cache.graph.edgeCount).toOption = some 10 := by
    decide +kernel
  rw [hstart] at hedges
  obtain ⟨hperform, hnames, -, hdepth⟩ := hsteps steps
  exact ⟨hsource, session, hstart, Option.some.inj hedges,
    hperform (.query .subtype "é<A>,<" "B<ß>"), hperform (.preload "A"), hnames "B", hdepth⟩

end NominalSubtyping.Session
