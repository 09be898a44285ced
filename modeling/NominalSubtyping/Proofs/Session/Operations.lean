import NominalSubtyping.Proofs.Session.Run
import NominalSubtyping.Source.Script

/-!
# Working on the graph of a session

A session is not the only way to work on its graph. A name can get a node, an edge can be recorded
between two nodes that the graph has *issued*, and names can be loaded or compared with the help of
any other source. Whatever is done in whatever order, and wherever a crash of a source or a bracket
error ends it, the graph stays well-formed and only grows.

## Main definitions

* `Session.Operation`, `Session.Operation.perform` : what can be done.
* `Session.operate` : the session after some operations.
* `Session.Issued` : no operation is given a number that the graph has not issued.

## Main results

* `Session.Operation.perform_maintains` : an operation keeps the graph well-formed and extends it.
* `Session.operate_representation` : so do operations one after the other.
-/

open Relation (ReflTransGen)

namespace NominalSubtyping.Session

/-- Something that is done with a session or with its graph. -/
inductive Operation where
  /-- A step of the session. -/
  | step (taken : Step)
  /-- A name gets a node. -/
  | intern (name : String)
  /-- An edge between two nodes is recorded. -/
  | link (sup sub : NodeId)
  /-- Everything below a type is loaded from another source. -/
  | load (source : Source) (name : String)
  /-- A question is put to an engine with another configuration and source. -/
  | ask (config : Config) (source : Source) (relation : Relation) (left right : String)

namespace Operation

/-- Does what the operation says. -/
def perform : Operation → SessionM PUnit
  | step taken => taken.perform
  | intern name => discard (onCache (Cache.intern name))
  | link sup sub => onCache (Cache.onGraph (TypeGraph.link sup sub))
  | load source name => discard (onCache (Cache.load source name))
  | ask config source relation left right => discard (onCache
      (Cache.withEngine config (Engine.answer config source relation left right)))

/-- The numbers that the operation is given are numbers of the graph. -/
def Issued (graph : TypeGraph) : Operation → Prop
  | link sup sub => sup < graph.size ∧ sub < graph.size
  | _ => True

end Operation

/-- The session after some operations. -/
def operate (session : Session) (operations : List Operation) : Session :=
  operations.foldl (fun session operation => finalState operation.perform session) session

/-- When it comes to an operation, the graph has issued the numbers that the operation is given. -/
def Issued (session : Session) : List Operation → Prop
  | [] => True
  | operation :: operations => operation.Issued session.cache.graph ∧
      (finalState operation.perform session).Issued operations

variable {session : Session}

/-- The graph of the later session is well-formed, and has grown out of that of the earlier one. -/
structure Maintains (session later : Session) : Prop where
  wellFormed : later.cache.graph.WellFormed
  extend : session.cache.graph.Extends later.cache.graph

/-- An action that leaves a cache to which steps lead maintains the graph. -/
theorem onCache_maintains {α : Type} {source : Source} {action : CacheM α}
    (hwf : session.cache.graph.WellFormed)
    (hpath : ReflTransGen (Cache.Step source) session.cache (finalState action session.cache)) :
    session.Maintains (finalState (discard (onCache action)) session) := by
  rw [finalState_discard, onCache, finalState_focus]
  exact ⟨Cache.wellFormed_of_path hpath hwf, (Cache.grows_of_path hpath hwf).extend⟩

/-- An operation keeps the graph well-formed and extends it, with a value or with a fault. -/
theorem Operation.perform_maintains (hwf : session.cache.graph.WellFormed) {operation : Operation}
    (hissued : operation.Issued session.cache.graph) :
    session.Maintains (finalState operation.perform session) := by
  cases operation with
  | step taken =>
    have hfollows := taken.perform_follows hwf
    exact ⟨hfollows.wellFormed hwf, (hfollows.grows hwf).extend⟩
  | intern name =>
    exact onCache_maintains hwf
      ((Cache.tracks_path session.source hwf).intern_leads .refl name).fit_finalState
  | link sup sub =>
    obtain ⟨hsup, hsub⟩ := hissued
    have hlink := Cache.onGraph_eq_of_ok (TypeGraph.link_eq hwf hsup hsub)
    rw [perform, finalState_of_ok (onCache_eq_of_ok hlink)]
    exact ⟨hwf.withEdge hsup hsub, TypeGraph.extends_withEdge hsup hsub⟩
  | load source name =>
    exact onCache_maintains hwf
      ((Cache.tracks_path source hwf).load_leads .refl name).fit_finalState
  | ask config source relation left right =>
    exact onCache_maintains hwf (Cache.withEngine_leads (Cache.tracks_path source hwf) .refl config
      relation left right).fit_finalState

/-- Operations one after the other keep the graph well-formed. -/
theorem operate_wellFormed (operations : List Operation) : ∀ {session : Session},
    session.cache.graph.WellFormed → session.Issued operations →
    (session.operate operations).cache.graph.WellFormed := by
  induction operations with
  | nil => exact fun hwf _ => hwf
  | cons operation operations ih =>
    intro session hwf hissued
    exact ih (Operation.perform_maintains hwf hissued.1).wellFormed hissued.2

/-- After any operations of a session, the index and the nodes of its graph agree, both halves of
every edge are there once, all stored numbers are numbers of the graph, and the next operation only
extends the graph. -/
theorem operate_representation {config : Config} {source : Source}
    (hstart : start config source = .ok session) (operations : List Operation)
    (hissued : session.Issued operations) :
    let later := session.operate operations
    later.cache.graph.WellFormed ∧
      (∀ id neighbour, neighbour ∈ later.cache.graph.subtypesOf id ∨
          neighbour ∈ later.cache.graph.supertypesOf id → neighbour < later.cache.graph.size) ∧
      ∀ operation : Operation, operation.Issued later.cache.graph →
        later.cache.graph.Extends (finalState operation.perform later).cache.graph := by
  intro later
  have hwf : later.cache.graph.WellFormed :=
    operate_wellFormed operations (start_wellFormed hstart) hissued
  refine ⟨hwf, ?_, fun operation hnext => (Operation.perform_maintains hwf hnext).extend⟩
  rintro id neighbour (hsub | hsup)
  · exact (hwf.lt_size_of_mem hsub).2
  · exact (hwf.lt_size_of_mem ((hwf.symmetric neighbour id).2 hsup)).1

/-- Two types that are made direct subtypes of each other, a text that is refused, and a source that
crashes. -/
theorem operate_representation_cycle :
    let config : Config := { preloadRoot := false }
    let source : Source := Script.toSource { otherwise := .crash "lost" }
    let operations : List Operation := [.intern "A", .intern "B", .link 8 9, .link 9 8,
      .step (.query .subtype "A<" "B"), .load source "B"]
    ∃ session, start config source = .ok session ∧ session.Issued operations ∧
      let later := session.operate operations
      later.cache.graph.WellFormed ∧
        later.cache.graph.Extends (finalState (Operation.link 8 8).perform later).cache.graph := by
  intro config source operations
  refine ⟨_, rfl, ?_⟩
  have hissued : Issued { config, source, cache := .new config.loadLimits } operations :=
    ⟨trivial, trivial, ⟨by decide +kernel, by decide +kernel⟩,
      ⟨by decide +kernel, by decide +kernel⟩, trivial, trivial, trivial⟩
  have hstart : start config source = .ok _ := rfl
  obtain ⟨hwf, -, hnext⟩ := operate_representation hstart operations hissued
  exact ⟨hissued, hwf, hnext (.link 8 8) ⟨by decide +kernel, by decide +kernel⟩⟩

end NominalSubtyping.Session
