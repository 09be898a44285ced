import NominalSubtyping.Proofs.Cache.Effects
import NominalSubtyping.Proofs.Cache.Faithful
import NominalSubtyping.Proofs.Cache.Steps

/-!
# What is demanded of a cache

Over a catalog all that an action does to the graph can be said by name. It *demands* that a name
has a node, or that everything below a name is loaded; the second demand makes a node for the name
and, if the catalog knows the name, complete nodes for all that lies below it. Demands are met in
any order with the same result: a node is there if it was there before or is part of what was
demanded, and likewise for complete nodes. It does not matter where a walk found its way cut short
by what had been loaded before.

The edges of the graph are not demanded. They are the direct steps of the hierarchy below the
complete nodes, since no load is cut short.

## Main definitions

* `Demand`, `Cache.Meets` : demands, and how they are met.
* `Cache.Ends` : an action ends with a value and meets demands.
* `Cache.Settled` : edges are recorded below complete nodes only.
* `TypeGraph.Alike` : graphs that differ in the numbers of their nodes at most.

## Main results

* `Cache.Faithful.loads_meets` : a load meets the demand for all that lies below its name.
* `Cache.Faithful.hasEdge_iff` : the edges of a settled cache.
* `Cache.Meets.alike` : the same demands lead to graphs that are alike.
-/

open Relation (ReflTransGen)

namespace NominalSubtyping

namespace TypeGraph

/-- The graphs show the same names, edges and complete nodes. The nodes may have different
numbers. -/
structure Alike (graph other : TypeGraph) : Prop where
  contains_eq : ∀ name, graph.contains name = other.contains name
  hasEdge_iff : ∀ sup sub, graph.HasEdge sup sub ↔ other.HasEdge sup sub
  isComplete_eq : ∀ name, graph.isComplete name = other.isComplete name

end TypeGraph

/-! ### Demands -/

/-- Something that is demanded of a cache over a catalog. -/
inductive Demand where
  /-- The name has a node. -/
  | node (name : String)
  /-- Everything below the name is loaded. -/
  | below (name : String)

namespace Demand

variable (catalog : Catalog)

/-- The names for which the demand asks for complete nodes. -/
def Completes : Demand → String → Prop
  | node _, _ => False
  | below name, other => name ∈ catalog.known ∧ catalog.Below other name

/-- The names for which the demand asks for nodes. -/
def Names : Demand → String → Prop
  | node name, other => other = name
  | below name, other => other = name ∨ Completes catalog (below name) other

end Demand

namespace Cache

variable {α β : Type} {catalog : Catalog} {demands demands' : List Demand}
  {cache middle later : Cache} {name sub sup : String}

/-- The later cache has the nodes and the complete nodes of the earlier one and those that were
demanded. -/
structure Meets (catalog : Catalog) (demands : List Demand) (cache later : Cache) : Prop where
  contains_iff : ∀ name, later.graph.contains name = true ↔
    cache.graph.contains name = true ∨ ∃ demand ∈ demands, demand.Names catalog name
  isComplete_iff : ∀ name, later.graph.isComplete name = true ↔
    cache.graph.isComplete name = true ∨ ∃ demand ∈ demands, demand.Completes catalog name

namespace Meets

theorem of_graph_eq (h : later.graph = cache.graph) : Meets catalog [] cache later := by
  constructor <;> intro name <;> simp [h]

/-- Demands are met one after the other. -/
theorem trans (h : Meets catalog demands cache middle) (h' : Meets catalog demands' middle later) :
    Meets catalog (demands ++ demands') cache later where
  contains_iff name := by
    rw [h'.contains_iff, h.contains_iff, or_assoc]
    simp only [List.mem_append, or_and_right, exists_or]
  isComplete_iff name := by
    rw [h'.isComplete_iff, h.isComplete_iff, or_assoc]
    simp only [List.mem_append, or_and_right, exists_or]

end Meets

theorem meets_withNode (hwf : cache.graph.WellFormed) (name : String) :
    Meets catalog [.node name] cache (cache.withNode name) where
  contains_iff other := by
    rw [graph_withNode, TypeGraph.contains_withNode]
    simp [Demand.Names]
  isComplete_iff other := by
    rw [graph_withNode, TypeGraph.isComplete_withNode hwf]
    simp [Demand.Completes]

namespace Faithful

variable {filled : Cache} {snapshot : Snapshot} {complete : Bool}
  {outcome : Except Fault LoadStatus}

/-- All that lies below a complete name is complete. -/
theorem isComplete_of_below (h : Faithful catalog cache) (hc : cache.graph.isComplete sup = true)
    (hb : catalog.Below sub sup) : cache.graph.isComplete sub = true := by
  induction hb with
  | refl => exact hc
  | tail _ hstep ih => exact ih (h.covered hc hstep).2

/-- A load walks down from nodes that were incomplete, so it never leaves a primitive type, and what
is listed below a walked name is a direct step of the hierarchy. -/
theorem direct_of_walked (h : Faithful catalog cache) (hbuilt : catalog.Built)
    (hincomplete : cache.graph.isComplete name = false)
    (hwalked : Walked (catalog.hierarchy name) name cache.graph sup)
    (hsub : sub ∈ (catalog.hierarchy name).directSubtypes sup) :
    catalog.Direct sub sup :=
  (Catalog.direct_iff_of_not_primitive
    (h.isPrimitive_eq_false (hwalked.incomplete hincomplete))).2
      (hbuilt.mem_below_of_hierarchy hsub)

theorem below_of_walked (h : Faithful catalog cache) (hbuilt : catalog.Built)
    (hincomplete : cache.graph.isComplete name = false)
    (hwalked : Walked (catalog.hierarchy name) name cache.graph sup) :
    catalog.Below sup name := by
  induction hwalked with
  | root => exact ReflTransGen.refl
  | child hsup hsub _ ih => exact ih.head (h.direct_of_walked hbuilt hincomplete hsup hsub)

/-- All that is complete after a load of a known name, or has a node, was so before or lies below
the name. -/
theorem below_of_takesIn (h : Faithful catalog cache) (hbuilt : catalog.Built)
    (htaken : TakesIn catalog.toSource name (catalog.hierarchy name) true cache filled) :
    (∀ other, filled.graph.isComplete other = true →
        cache.graph.isComplete other = true ∨ catalog.Below other name) ∧
      ∀ other, filled.graph.contains other = true →
        cache.graph.contains other = true ∨ catalog.Below other name := by
  have habsorbed := htaken.absorbed h.wellFormed
  refine ⟨fun other hc => ?_, fun other hnode => ?_⟩
  · exact (habsorbed.isComplete_iff.1 hc).imp_right (h.below_of_walked hbuilt htaken.incomplete)
  · refine (habsorbed.contains_iff.1 hnode).imp_right ?_
    rintro (rfl | ⟨sup, hsup, hsub⟩)
    · exact ReflTransGen.refl
    · exact (h.below_of_walked hbuilt htaken.incomplete hsup).head
        (h.direct_of_walked hbuilt htaken.incomplete hsup hsub)

/-- What a load adds: the name and, if it is known, what lies below it. -/
theorem adds_of_loads (h : Faithful catalog cache) (hbuilt : catalog.Built)
    (hload : Loads catalog.toSource name cache outcome later) :
    (∀ other, later.graph.isComplete other = true → cache.graph.isComplete other = true ∨
        (name ∈ catalog.known ∧ catalog.Below other name)) ∧
      (∀ other, later.graph.contains other = true → cache.graph.contains other = true ∨
        other = name ∨ (name ∈ catalog.known ∧ catalog.Below other name)) ∧
      (name ∈ catalog.known → later.graph.isComplete name = true) ∧
      later.graph.contains name = true := by
  cases hload with
  | alreadyComplete hcomplete =>
    exact ⟨fun _ => Or.inl, fun _ => Or.inl, fun _ => hcomplete,
      TypeGraph.contains_of_isComplete hcomplete⟩
  | unresolved _ hreply =>
    rw [graph_withFailure, graph_withQuestion, graph_withNode]
    refine ⟨fun other hc => ?_, fun other hnode => ?_, fun hknown => ?_, ?_⟩
    · rw [TypeGraph.isComplete_withNode h.wellFormed] at hc
      exact Or.inl hc
    · exact (TypeGraph.contains_withNode.1 hnode).imp_right Or.inl
    · exact absurd hknown (toSource_eq_unknown hreply)
    · exact TypeGraph.contains_withNode.2 (Or.inr rfl)
  | failed _ hreply =>
    rcases toSource_cases catalog cache.asked name with hc | ⟨_, hc⟩ <;> rw [hc] at hreply <;>
      cases hreply
  | crashed _ hreply => exact absurd hreply (toSource_ne_crashed catalog cache.asked name _)
  | truncated htaken => cases (h.takesIn hbuilt htaken).1
  | loaded htaken =>
    have hcomplete := (h.takesIn hbuilt htaken).2.2
    obtain ⟨hknown, rfl⟩ := toSource_eq_found htaken.reply
    obtain ⟨hnew, hnew'⟩ := h.below_of_takesIn hbuilt htaken
    exact ⟨fun other hc => (hnew other hc).imp_right fun hb => ⟨hknown, hb⟩,
      fun other hnode => (hnew' other hnode).imp_right fun hb => Or.inr ⟨hknown, hb⟩,
      fun _ => hcomplete, TypeGraph.contains_of_isComplete hcomplete⟩

/-- A load meets the demand for all that lies below its name. -/
theorem loads_meets (h : Faithful catalog cache) (hbuilt : catalog.Built)
    (hload : Loads catalog.toSource name cache outcome later) :
    Meets catalog [.below name] cache later := by
  have hlater := (h.loads hbuilt hload).2.1
  have hextend := (hload.grows h.wellFormed).extend
  obtain ⟨hcompletes, hnames, hknown, hname⟩ := h.adds_of_loads hbuilt hload
  have hbelow {other : String} (hb : name ∈ catalog.known ∧ catalog.Below other name) :
      later.graph.isComplete other = true := hlater.isComplete_of_below (hknown hb.1) hb.2
  constructor
  · intro other
    simp only [List.mem_singleton, exists_eq_left, Demand.Names]
    refine ⟨hnames other, ?_⟩
    rintro (hnode | rfl | hb)
    · exact hextend.contains hnode
    · exact hname
    · exact TypeGraph.contains_of_isComplete (hbelow hb)
  · intro other
    simp only [List.mem_singleton, exists_eq_left, Demand.Completes]
    refine ⟨hcompletes other, ?_⟩
    rintro (hc | hb)
    · exact hextend.isComplete hc
    · exact hbelow hb

end Faithful

/-! ### Actions that meet demands -/

/-- The action ends with the value, and leaves a faithful cache in which the demands are met. -/
def Ends (catalog : Catalog) (action : CacheM α) (cache : Cache) (value : α)
    (demands : List Demand) : Prop :=
  ∃ later, action cache = .ok value later ∧ Faithful catalog later ∧
    cache.graph.Extends later.graph ∧ Meets catalog demands cache later

namespace Ends

variable {action : CacheM α} {next : α → CacheM β} {value : α} {value' : β}

theorem pure (h : Faithful catalog cache) (value : α) : Ends catalog (pure value) cache value [] :=
  ⟨cache, rfl, h, .refl _, .of_graph_eq rfl⟩

theorem bind (h : Ends catalog action cache value demands)
    (hnext : ∀ {middle}, Faithful catalog middle → cache.graph.Extends middle.graph →
      Ends catalog (next value) middle value' demands') :
    Ends catalog (action >>= next) cache value' (demands ++ demands') := by
  obtain ⟨middle, haction, hmiddle, hextend, hmeets⟩ := h
  obtain ⟨later, hresult, hlater, hextend', hmeets'⟩ := hnext hmiddle hextend
  exact ⟨later, (bind_eq_of_ok haction).trans hresult, hlater, hextend.trans hextend',
    hmeets.trans hmeets'⟩

theorem record (h : Faithful catalog cache) (event : Event) :
    Ends catalog (record event) cache ⟨⟩ [] :=
  ⟨cache.withEvent event, rfl, h.withEvent event, .refl _, .of_graph_eq rfl⟩

theorem inspect (h : Faithful catalog cache) {read : TypeGraph → Except Fault α}
    (hread : read cache.graph = .ok value) : Ends catalog (inspect read) cache value [] :=
  ⟨cache, inspect_eq_of_ok read hread, h, .refl _, .of_graph_eq rfl⟩

theorem inspect_bind {read : TypeGraph → Except Fault α} (hread : read cache.graph = .ok value)
    (hnext : Ends catalog (next value) cache value' demands) :
    Ends catalog (Cache.inspect read >>= next) cache value' demands := by
  obtain ⟨later, hresult, hlater⟩ := hnext
  exact ⟨later, (bind_eq_of_ok (inspect_eq_of_ok read hread)).trans hresult, hlater⟩

/-- A name gets a node, and then the action goes on with its number. -/
theorem intern_bind (h : Faithful catalog cache) {next : NodeId → CacheM β}
    (hnext : ∀ {id}, (cache.withNode name).graph.lookup name = some id →
      Ends catalog (next id) (cache.withNode name) value' demands) :
    Ends catalog (intern name >>= next) cache value' (.node name :: demands) := by
  obtain ⟨id, hid, hintern⟩ := cache.intern_eq name
  obtain ⟨later, hresult, hlater, hextend, hmeets⟩ := hnext hid
  exact ⟨later, (bind_eq_of_ok hintern).trans hresult, hlater,
    (cache.grows_withNode name).extend.trans hextend,
    (meets_withNode h.wellFormed name).trans hmeets⟩

/-- A name is loaded, and then the action goes on with the name exhausted. -/
theorem load_bind (h : Faithful catalog cache) (hbuilt : catalog.Built) {next : PUnit → CacheM β}
    (hnext : ∀ {middle}, Faithful catalog middle → cache.graph.Extends middle.graph →
      Exhausted catalog middle name → Ends catalog (next ⟨⟩) middle value' demands) :
    Ends catalog (discard (load catalog.toSource name) >>= next) cache value'
      (.below name :: demands) := by
  obtain ⟨outcome, middle, hload, hloads⟩ := load_loads h.wellFormed catalog.toSource name
  obtain ⟨⟨status, rfl⟩, hmiddle, hexhausted⟩ := h.loads hbuilt hloads
  have hextend := (hloads.grows h.wellFormed).extend
  obtain ⟨later, hresult, hlater, hextend', hmeets⟩ := hnext hmiddle hextend hexhausted
  exact ⟨later, (bind_eq_of_ok (discard_eq_of_ok hload)).trans hresult, hlater,
    hextend.trans hextend', (h.loads_meets hbuilt hloads).trans hmeets⟩

end Ends

/-! ### Edges -/

/-- Edges are recorded below complete nodes only. -/
def Settled (cache : Cache) : Prop :=
  ∀ sup sub, cache.graph.HasEdge sup sub → cache.graph.isComplete sup = true

theorem settled_new (limits : Limits) : Settled (new limits) := by
  intro sup sub hedge
  rw [graph_new, TypeGraph.adds_primitives.hasEdge_iff] at hedge
  rw [graph_new, TypeGraph.adds_primitives.isComplete_iff]
  exact Or.inr (hedge.resolve_left TypeGraph.not_hasEdge_empty).isPrimitive.2

theorem Settled.withNode (h : Settled cache) (hwf : cache.graph.WellFormed) (name : String) :
    Settled (cache.withNode name) := by
  intro sup sub hedge
  rw [graph_withNode, TypeGraph.hasEdge_withNode hwf] at hedge
  rw [graph_withNode, TypeGraph.isComplete_withNode hwf]
  exact h sup sub hedge

namespace Faithful

/-- No load is cut short, so every edge that it records is below a complete node in the end. -/
theorem settled_loads (h : Faithful catalog cache) (hbuilt : catalog.Built) (hs : Settled cache)
    {outcome : Except Fault LoadStatus} (hload : Loads catalog.toSource name cache outcome later) :
    Settled later := by
  have hnode := hs.withNode h.wellFormed name
  cases hload with
  | alreadyComplete => exact hs
  | unresolved => exact hnode
  | failed => exact hnode
  | crashed => exact hnode
  | truncated htaken => cases (h.takesIn hbuilt htaken).1
  | loaded htaken =>
    intro sup sub hedge
    rcases (htaken.taken h.wellFormed).edge hedge with hold | ⟨-, -, hcomplete | hcut⟩
    · exact (htaken.grows h.wellFormed).extend.isComplete (hs sup sub hold)
    · exact hcomplete
    · cases hcut

theorem settled_step (h : Faithful catalog cache) (hbuilt : catalog.Built) (hs : Settled cache)
    (hstep : Step catalog.toSource cache later) : Settled later := by
  cases hstep with
  | node name => exact hs.withNode h.wellFormed name
  | event => exact hs
  | load hload => exact h.settled_loads hbuilt hs hload

/-- The edges of a settled cache are the direct steps below its complete nodes. -/
theorem hasEdge_iff (h : Faithful catalog cache) (hs : Settled cache) :
    cache.graph.HasEdge sup sub ↔ cache.graph.isComplete sup = true ∧ catalog.Direct sub sup :=
  ⟨fun hedge => ⟨hs sup sub hedge, h.direct hedge⟩, fun hd => (h.covered hd.1 hd.2).1⟩

end Faithful

/-- Where the same demands have been met in a different order, the graphs are alike. -/
theorem Meets.alike {other : Cache} (h : Meets catalog demands cache later)
    (h' : Meets catalog demands' cache other)
    (hsame : ∀ demand, demand ∈ demands ↔ demand ∈ demands')
    (hlater : Faithful catalog later ∧ Settled later)
    (hother : Faithful catalog other ∧ Settled other) : later.graph.Alike other.graph := by
  have hcomplete (name : String) : later.graph.isComplete name = other.graph.isComplete name := by
    rw [Bool.eq_iff_iff, h.isComplete_iff, h'.isComplete_iff]
    simp only [hsame]
  refine ⟨fun name => ?_, fun sup sub => ?_, hcomplete⟩
  · rw [Bool.eq_iff_iff, h.contains_iff, h'.contains_iff]
    simp only [hsame]
  · rw [hlater.1.hasEdge_iff hlater.2, hother.1.hasEdge_iff hother.2, hcomplete]

end Cache

end NominalSubtyping
