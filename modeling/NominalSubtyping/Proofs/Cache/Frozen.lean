import NominalSubtyping.Proofs.Cache.Steps

/-!
# What lies below a complete node

A walk records edges below the node that it is walking, and such a node is not complete. So the
direct subtypes of a complete node are *frozen*: no walk, no load and no path of steps changes them,
although the same node may go on to gain supertypes.

The primitive types are complete from the start, which freezes the hierarchy below them. Whatever a
source reports about their names, as subtypes, as supertypes or in cycles, below a primitive type
there is what can be widened to it, and nothing else. Nor is a source ever asked for a primitive
type.

## Main definitions

* `TypeGraph.Freezes` : a graph has grown, but not below its complete nodes.
* `Cache.Rooted` : the hierarchy of the primitive types is as it was in the beginning.

## Main results

* `Walk.Walks.freezes`, `Cache.freezes_of_path` : neither walks nor steps add anything below a
  complete node.
* `Cache.Rooted.liesBelow_iff` : below a primitive type there is what can be widened to it.
-/

open Relation (ReflTransGen)

namespace NominalSubtyping

/-! ### Graphs that grow elsewhere -/

namespace TypeGraph

variable {graph middle later : TypeGraph}

/-- The graph `later` has grown out of `graph`, but not below complete nodes. -/
structure Freezes (graph later : TypeGraph) : Prop where
  extend : graph.Extends later
  subtypesOf_eq : ∀ {id}, graph.completeAt id = true → later.subtypesOf id = graph.subtypesOf id

namespace Freezes

theorem refl (graph : TypeGraph) : graph.Freezes graph :=
  ⟨.refl graph, fun _ => rfl⟩

theorem trans (h : graph.Freezes middle) (h' : middle.Freezes later) : graph.Freezes later where
  extend := h.extend.trans h'.extend
  subtypesOf_eq hc := (h'.subtypesOf_eq (h.extend.complete hc)).trans (h.subtypesOf_eq hc)

/-- By name, a complete node has the same direct subtypes before and after. -/
theorem hasEdge_iff (h : graph.Freezes later) (hwf : graph.WellFormed) (hlater : later.WellFormed)
    {sup sub : String} (hc : graph.isComplete sup = true) :
    later.HasEdge sup sub ↔ graph.HasEdge sup sub := by
  refine ⟨?_, h.extend.hasEdge⟩
  rintro ⟨supId, subId, hsup, hsub, hmem⟩
  obtain ⟨id, hid, hcomplete⟩ := isComplete_eq_true_iff.1 hc
  obtain rfl := Option.some.inj ((h.extend.lookup hid).symm.trans hsup)
  rw [h.subtypesOf_eq hcomplete] at hmem
  obtain ⟨name, hname⟩ := WellFormed.exists_name (hwf.lt_size_of_mem hmem).2
  have hold := (hwf.lookup_iff name subId).2 hname
  rw [hlater.lookup_inj hsub (h.extend.lookup hold)]
  exact ⟨id, subId, hid, hold, hmem⟩

end Freezes

theorem freezes_withNode (graph : TypeGraph) (name : String) :
    graph.Freezes (graph.withNode name) :=
  ⟨graph.extends_withNode name, fun _ => graph.subtypesOf_withNode name _⟩

theorem freezes_withComplete {id : NodeId} (hid : id < graph.size) :
    graph.Freezes (graph.withComplete id) :=
  ⟨extends_withComplete hid, fun _ => graph.subtypesOf_withComplete id _⟩

/-- A new edge below a node that is not complete. -/
theorem freezes_withEdge {sup sub : NodeId} (hsup : sup < graph.size) (hsub : sub < graph.size)
    (hincomplete : graph.completeAt sup = false) : graph.Freezes (graph.withEdge sup sub) where
  extend := extends_withEdge hsup hsub
  subtypesOf_eq {id} hc := by
    have hne : sup ≠ id := by
      rintro rfl
      exact Bool.false_ne_true (hincomplete.symm.trans hc)
    rw [subtypesOf_withEdge id hsup, if_neg hne]

end TypeGraph

/-! ### Walks -/

namespace Walk

variable {snapshot : Snapshot} {task : Task} {walk later : Walk} {complete : Bool}

/-- Recording a reported edge of a node that is being walked. -/
theorem Sound.freezes_link {cache : Cache} {guard : Guard NodeId} (h : Sound ⟨cache, guard⟩)
    {id : NodeId} (hid : id ∈ guard.visiting) {sub : String} {subId : NodeId}
    (hsub : (cache.withNode sub).graph.lookup sub = some subId) :
    cache.graph.Freezes ((cache.withNode sub).withEdge id subId).graph := by
  have hnode : cache.graph.Freezes (cache.withNode sub).graph := by
    rw [Cache.graph_withNode]
    exact cache.graph.freezes_withNode sub
  have hlt := Nat.lt_of_lt_of_le (h.visiting_lt id hid) hnode.extend.size_le
  have hincomplete : (cache.withNode sub).graph.completeAt id = false := by
    rw [Cache.graph_withNode, TypeGraph.completeAt_withNode]
    exact h.incomplete id hid
  have hwf := Cache.wellFormed_withNode h.wellFormed sub
  exact hnode.trans (TypeGraph.freezes_withEdge hlt (hwf.lt_size hsub) hincomplete)

/-- No run adds anything below a complete node. -/
theorem Walks.freezes (h : Walks snapshot task walk complete later) (hs : walk.Sound)
    (hv : task.Valid snapshot walk) : walk.graph.Freezes later.graph := by
  induction h with
  | complete => exact .refl _
  | refused => exact .refl _
  | cycle => exact .refl _
  | @visit name id cache guard entered complete filled inner after hcomplete henter hbelow
      hleave ih =>
    have hentered := hs.enter (hs.wellFormed.lt_size hv) hcomplete henter
    have hvalid := Task.valid_entered snapshot hv henter
    have hkept := hbelow.kept hentered hvalid
    have hfilled := ih hentered hvalid
    cases complete with
    | false => exact hfilled
    | true =>
      exact hfilled.trans (TypeGraph.freezes_withComplete
        (hkept.sound.wellFormed.lt_size (hkept.extend.lookup hv)))
  | done => exact .refl _
  | child hsub hnode hrest ihNode ihRest =>
    have hlink := hs.link (hs.wellFormed.lt_size hv.1) hsub
    have hkept := hlink.trans (hnode.kept hlink.sound hsub)
    exact ((hs.freezes_link hv.2.1 hsub).trans (ihNode hlink.sound hsub)).trans
      (ihRest hkept.sound (hv.rest hkept))

end Walk

/-! ### Loads and steps -/

namespace Cache

variable {source : Source} {cache later filled : Cache} {name : String} {snapshot : Snapshot}
  {complete : Bool} {outcome : Except Fault LoadStatus}

theorem freezes_opening (cache : Cache) (name : String) :
    cache.graph.Freezes ((cache.withNode name).withQuestion name).graph := by
  rw [graph_withQuestion, graph_withNode]
  exact cache.graph.freezes_withNode name

theorem TakesIn.freezes (htaken : TakesIn source name snapshot complete cache filled)
    (h : cache.graph.WellFormed) : cache.graph.Freezes filled.graph := by
  obtain ⟨id, guard, hid, hwalks⟩ := htaken.walks
  exact (cache.freezes_opening name).trans (hwalks.freezes (sound_opening h name) hid)

/-- A load adds nothing below a complete node. -/
theorem Loads.freezes (hload : Loads source name cache outcome later)
    (h : cache.graph.WellFormed) : cache.graph.Freezes later.graph := by
  have hopening := cache.freezes_opening name
  cases hload with
  | alreadyComplete => exact .refl _
  | unresolved => exact hopening
  | failed => exact hopening
  | crashed => exact hopening
  | truncated htaken => exact htaken.freezes h
  | loaded htaken => exact htaken.freezes h

namespace Step

variable (hstep : Step source cache later) (h : cache.graph.WellFormed)

include hstep h

theorem freezes : cache.graph.Freezes later.graph := by
  cases hstep with
  | node name =>
    rw [graph_withNode]
    exact cache.graph.freezes_withNode name
  | event => exact .refl _
  | load hload => exact hload.freezes h

theorem asked_cases : later.asked = cache.asked ∨
    ∃ name, cache.graph.isComplete name = false ∧ later.asked = name :: cache.asked := by
  cases hstep with
  | node name => exact Or.inl (cache.asked_withNode name)
  | event => exact Or.inl rfl
  | @load name outcome later hload =>
    rw [hload.asked_eq_ite h]
    cases hc : cache.graph.isComplete name with
    | true => exact Or.inl rfl
    | false => exact Or.inr ⟨name, hc, rfl⟩

end Step

/-- A path of steps adds nothing below a complete node. -/
theorem freezes_of_path (h : ReflTransGen (Step source) cache later)
    (hwf : cache.graph.WellFormed) : cache.graph.Freezes later.graph := by
  induction h with
  | refl => exact .refl _
  | tail hpath hstep ih => exact ih.trans (hstep.freezes (wellFormed_of_path hpath hwf))

/-! ### The primitive types -/

/-- The hierarchy of the primitive types is as it was in the beginning, and the source was not asked
for any of them. -/
structure Rooted (cache : Cache) : Prop where
  freezes : TypeGraph.primitives.Freezes cache.graph
  asked : ∀ name ∈ cache.asked, isPrimitive name = false

theorem rooted_new (limits : Limits) : Rooted (new limits) where
  freezes := by
    rw [graph_new]
    exact .refl _
  asked name hname := by cases hname

namespace Rooted

theorem isComplete (h : Rooted cache) (hp : isPrimitive name = true) :
    cache.graph.isComplete name = true :=
  h.freezes.extend.isComplete (TypeGraph.adds_primitives.isComplete_iff.2 (Or.inr hp))

/-- Every step leaves the primitive types alone. -/
theorem step (h : Rooted cache) (hwf : cache.graph.WellFormed) (hstep : Step source cache later) :
    Rooted later where
  freezes := h.freezes.trans (hstep.freezes hwf)
  asked other hother := by
    rcases hstep.asked_cases hwf with hsame | ⟨name, hincomplete, hnew⟩
    · rw [hsame] at hother
      exact h.asked other hother
    · rw [hnew] at hother
      rcases List.mem_cons.1 hother with rfl | hother
      · refine Bool.eq_false_iff.2 fun hp => ?_
        exact Bool.false_ne_true (hincomplete.symm.trans (h.isComplete hp))
      · exact h.asked other hother

/-- The edges below a primitive type are the widenings. -/
theorem hasEdge_iff (h : Rooted cache) (hwf : cache.graph.WellFormed) {sup sub : String}
    (hp : isPrimitive sup = true) : cache.graph.HasEdge sup sub ↔ Primitive.Widens sub sup := by
  have hprimitives := TypeGraph.adds_primitives
  rw [h.freezes.hasEdge_iff hprimitives.wellFormed hwf (hprimitives.isComplete_iff.2 (Or.inr hp)),
    hprimitives.hasEdge_iff]
  exact ⟨fun he => he.resolve_left TypeGraph.not_hasEdge_empty, Or.inr⟩

/-- Below a primitive type there is what can be widened to it. -/
theorem liesBelow_iff (h : Rooted cache) (hwf : cache.graph.WellFormed) {sup sub : String}
    (hp : isPrimitive sup = true) :
    cache.graph.LiesBelow sub sup ↔ ReflTransGen Primitive.Widens sub sup := by
  constructor
  · intro hb
    induction hb with
    | refl => exact .refl
    | tail _ hedge ih =>
      have hw := (h.hasEdge_iff hwf hp).1 hedge
      exact (ih hw.isPrimitive.1).tail hw
  · exact ReflTransGen.mono (fun _ _ hw => (h.hasEdge_iff hwf hw.isPrimitive.2).2 hw) _ _

end Rooted

theorem rooted_of_path {limits : Limits} (h : ReflTransGen (Step source) (new limits) cache) :
    Rooted cache := by
  induction h with
  | refl => exact rooted_new limits
  | tail hpath hstep ih => exact ih.step (wellFormed_of_path hpath (wellFormed_new limits)) hstep

end Cache

end NominalSubtyping
