import NominalSubtyping.Proofs.Cache.Adequacy
import NominalSubtyping.Proofs.Source.Catalog

/-!
# Caches over a catalog

A cache over a catalog is *faithful* if its graph shows nothing but the hierarchy of the catalog,
and shows all of it below each complete node; its limits leave room for everything that the catalog
declares. A load keeps a cache faithful: it is never cut short, and afterwards all there is below
the loaded name has been loaded. From then on, reachability in the graph is reachability in the
hierarchy, whatever else has been loaded before.

## Main definitions

* `Cache.Faithful` : the cache shows the hierarchy of the catalog.
* `Cache.Exhausted` : there is nothing left to load below a name.

## Main results

* `Cache.Faithful.loads` : a load keeps a cache faithful and exhausts the loaded name.
* `Cache.Faithful.liesBelow_iff` : the graph agrees with the hierarchy below an exhausted name.
-/

open Relation (ReflTransGen)

namespace NominalSubtyping.Cache

variable {catalog : Catalog} {cache filled later : Cache} {name sub sup : String}
  {snapshot : Snapshot} {complete : Bool}

/-- The graph shows nothing but the hierarchy of the catalog, and all of it below complete nodes;
the limits leave room for all names and all edges. -/
structure Faithful (catalog : Catalog) (cache : Cache) : Prop where
  wellFormed : cache.graph.WellFormed
  direct : ∀ {sup sub}, cache.graph.HasEdge sup sub → catalog.Direct sub sup
  primitive : ∀ {name}, isPrimitive name = true → cache.graph.isComplete name = true
  covered : ∀ {sup sub}, cache.graph.isComplete sup = true → catalog.Direct sub sup →
    cache.graph.HasEdge sup sub ∧ cache.graph.isComplete sub = true
  depth : catalog.known.size < cache.limits.maxDepth
  iterations : catalog.edgeCount < cache.limits.maxIterations

/-- Nothing is left to load below `name`: the name is complete, or there is nothing below it. -/
def Exhausted (catalog : Catalog) (cache : Cache) (name : String) : Prop :=
  cache.graph.isComplete name = true ∨ ∀ sub, ¬ catalog.Direct sub name

theorem Exhausted.mono (h : Exhausted catalog cache name)
    (hextend : cache.graph.Extends later.graph) : Exhausted catalog later name :=
  h.imp_left hextend.isComplete

/-- A new cache shows the primitive types. -/
theorem faithful_new {limits : Limits} (hdepth : catalog.known.size < limits.maxDepth)
    (hiterations : catalog.edgeCount < limits.maxIterations) : Faithful catalog (new limits) where
  wellFormed := wellFormed_new limits
  direct he := by
    rw [graph_new, TypeGraph.adds_primitives.hasEdge_iff] at he
    exact Or.inl (he.resolve_left TypeGraph.not_hasEdge_empty)
  primitive hp := by
    rw [graph_new, TypeGraph.adds_primitives.isComplete_iff]
    exact Or.inr hp
  covered {sup sub} hc hd := by
    rw [graph_new, TypeGraph.adds_primitives.isComplete_iff, TypeGraph.isComplete_empty] at hc
    have hp := hc.resolve_left Bool.false_ne_true
    have hw := (Catalog.direct_iff_of_primitive hp).1 hd
    rw [graph_new, TypeGraph.adds_primitives.isComplete_iff, TypeGraph.adds_primitives.hasEdge_iff]
    exact ⟨Or.inr hw, Or.inr hw.isPrimitive.1⟩
  depth := hdepth
  iterations := hiterations

namespace Faithful

/-- Only the graph and the limits matter. -/
theorem congr (h : Faithful catalog cache) (hgraph : later.graph = cache.graph)
    (hlimits : later.limits = cache.limits) : Faithful catalog later where
  wellFormed := hgraph ▸ h.wellFormed
  direct := hgraph ▸ h.direct
  primitive := hgraph ▸ h.primitive
  covered := hgraph ▸ h.covered
  depth := hlimits ▸ h.depth
  iterations := hlimits ▸ h.iterations

theorem withNode (h : Faithful catalog cache) (name : String) :
    Faithful catalog (cache.withNode name) where
  wellFormed := wellFormed_withNode h.wellFormed name
  direct he := by
    rw [graph_withNode, TypeGraph.hasEdge_withNode h.wellFormed] at he
    exact h.direct he
  primitive hp := by
    rw [graph_withNode, TypeGraph.isComplete_withNode h.wellFormed]
    exact h.primitive hp
  covered hc hd := by
    rw [graph_withNode] at hc ⊢
    rw [TypeGraph.isComplete_withNode h.wellFormed] at hc ⊢
    rw [TypeGraph.hasEdge_withNode h.wellFormed]
    exact h.covered hc hd
  depth := by
    rw [limits_withNode]
    exact h.depth
  iterations := by
    rw [limits_withNode]
    exact h.iterations

theorem withEvent (h : Faithful catalog cache) (event : Event) :
    Faithful catalog (cache.withEvent event) :=
  h.congr rfl rfl

theorem isPrimitive_eq_false (h : Faithful catalog cache)
    (hincomplete : cache.graph.isComplete name = false) : isPrimitive name = false := by
  rw [Bool.eq_false_iff]
  intro hp
  rw [h.primitive hp] at hincomplete
  cases hincomplete

/-! ### Reading the graph -/

/-- Chains of edges are chains of direct steps. -/
theorem below_of_liesBelow (h : Faithful catalog cache) (hb : cache.graph.LiesBelow sub sup) :
    catalog.Below sub sup :=
  ReflTransGen.mono (fun _ _ he => h.direct he) _ _ hb

theorem liesBelow_of_isComplete (h : Faithful catalog cache)
    (hc : cache.graph.isComplete sup = true) (hb : catalog.Below sub sup) :
    cache.graph.LiesBelow sub sup := by
  induction hb with
  | refl => exact ReflTransGen.refl
  | tail _ hstep ih =>
    obtain ⟨hedge, hc'⟩ := h.covered hc hstep
    exact (ih hc').tail hedge

/-- Below an exhausted name the graph agrees with the hierarchy. -/
theorem liesBelow_iff (h : Faithful catalog cache) (he : Exhausted catalog cache sup) :
    cache.graph.LiesBelow sub sup ↔ catalog.Below sub sup := by
  refine ⟨h.below_of_liesBelow, fun hb => ?_⟩
  rcases he with hc | hnone
  · exact h.liesBelow_of_isComplete hc hb
  · rcases ReflTransGen.cases_tail hb with rfl | ⟨middle, -, hstep⟩
    · exact ReflTransGen.refl
    · exact absurd hstep (hnone middle)

end Faithful

/-! ### Loading -/

theorem toSource_eq_found {asked : List String}
    (h : catalog.toSource asked name = .found snapshot) :
    name ∈ catalog.known ∧ snapshot = catalog.hierarchy name := by
  rw [Catalog.toSource, Catalog.snapshot?] at h
  by_cases hknown : catalog.isKnown name = true
  · rw [if_pos hknown] at h
    exact ⟨of_decide_eq_true hknown, (Reply.found.inj h).symm⟩
  · rw [if_neg hknown] at h
    cases h

theorem toSource_eq_unknown {asked : List String} (h : catalog.toSource asked name = .unknown) :
    name ∉ catalog.known := by
  intro hknown
  have hisKnown : catalog.isKnown name = true := decide_eq_true hknown
  rw [Catalog.toSource, Catalog.snapshot?, if_pos hisKnown] at h
  cases h

/-- A catalog knows a name or it does not; it never fails. -/
theorem toSource_cases (catalog : Catalog) (asked : List String) (name : String) :
    catalog.toSource asked name = .unknown ∨
      ∃ snapshot, catalog.toSource asked name = .found snapshot := by
  rw [Catalog.toSource]
  cases catalog.snapshot? name with
  | none => exact Or.inl rfl
  | some snapshot => exact Or.inr ⟨snapshot, rfl⟩

/-- A catalog never crashes. -/
theorem toSource_ne_crashed (catalog : Catalog) (asked : List String) (name message : String) :
    catalog.toSource asked name ≠ .crashed message := by
  intro hcrash
  rcases toSource_cases catalog asked name with hreply | ⟨snapshot, hreply⟩ <;>
    rw [hreply] at hcrash <;> cases hcrash

namespace Faithful

/-- The direct subtypes of a fresh name are reported in full. -/
theorem mem_directSubtypes_iff (h : Faithful catalog cache) (hbuilt : catalog.Built)
    (hfresh : Fresh (catalog.hierarchy name) name cache sup) :
    sub ∈ (catalog.hierarchy name).directSubtypes sup ↔ catalog.Direct sub sup := by
  have hreaches : catalog.table.Reaches name sup :=
    ReflTransGen.mono (fun _ _ hsub => hbuilt.mem_below_of_hierarchy hsub) _ _ hfresh.1
  rw [hbuilt.directSubtypes_hierarchy, SubtypeTable.below_restrict_of_reaches hreaches,
    Catalog.direct_iff_of_not_primitive (h.isPrimitive_eq_false hfresh.2)]

/-- The entries of a snapshot are no more than the edges of the catalog. -/
theorem sum_length_directSubtypes_le (hbuilt : catalog.Built) (name : String) :
    ∑ sup ∈ catalog.names, ((catalog.hierarchy name).directSubtypes sup).length ≤
      catalog.edgeCount := by
  refine le_trans (Finset.sum_le_sum fun sup _ => ?_) (hbuilt.sum_length_below_le catalog.names)
  rw [hbuilt.directSubtypes_hierarchy]
  by_cases hreaches : catalog.table.Reaches name sup
  · rw [SubtypeTable.below_restrict_of_reaches hreaches]
  · rw [SubtypeTable.below_restrict_of_not_reaches hreaches]
    exact Nat.zero_le _

/-- The limits are large enough for a snapshot of the catalog. -/
theorem complete_of_takesIn (h : Faithful catalog cache) (hbuilt : catalog.Built)
    (hknown : name ∈ catalog.known)
    (htaken : TakesIn catalog.toSource name (catalog.hierarchy name) complete cache filled) :
    complete = true := by
  have hencloses : Walk.Encloses (catalog.hierarchy name) catalog.names := by
    intro sup _ sub hsub
    exact Catalog.mem_names.2 (hbuilt.mem_known (hbuilt.mem_below_of_hierarchy hsub)).1
  exact htaken.complete_of_limits h.wellFormed hencloses (Catalog.mem_names.2 hknown)
    (Nat.lt_of_le_of_lt catalog.card_names_le h.depth)
    (Nat.lt_of_le_of_lt (sum_length_directSubtypes_le hbuilt name) h.iterations)

/-- A snapshot of the catalog is taken over in full, and the cache stays faithful. -/
theorem takesIn (h : Faithful catalog cache) (hbuilt : catalog.Built)
    (htaken : TakesIn catalog.toSource name snapshot complete cache filled) :
    complete = true ∧ Faithful catalog filled ∧ filled.graph.isComplete name = true := by
  obtain ⟨hknown, rfl⟩ := toSource_eq_found htaken.reply
  obtain rfl := h.complete_of_takesIn hbuilt hknown htaken
  have htakes := htaken.taken h.wellFormed
  have hgrows := htaken.grows h.wellFormed
  refine ⟨rfl, ⟨htaken.wellFormed h.wellFormed, ?_, ?_, ?_, ?_, ?_⟩, htakes.settled rfl⟩
  · intro sup sub he
    rcases htakes.edge he with he | ⟨hsup, hsub, -⟩
    · exact h.direct he
    · exact (h.mem_directSubtypes_iff hbuilt hsup).1 hsub
  · exact fun hp => hgrows.extend.isComplete (h.primitive hp)
  · intro sup sub hc hd
    rcases htakes.fresh hc with hold | hfresh
    · obtain ⟨he, hc'⟩ := h.covered hold hd
      exact ⟨hgrows.extend.hasEdge he, hgrows.extend.isComplete hc'⟩
    · obtain ⟨he, hwhy⟩ := htakes.covered hc hfresh.2
        ((h.mem_directSubtypes_iff hbuilt hfresh).2 hd)
      exact ⟨he, hwhy.resolve_right fun hcut => Bool.false_ne_true hcut.1.symm⟩
  · rw [hgrows.limits_eq]
    exact h.depth
  · rw [hgrows.limits_eq]
    exact h.iterations

/-- A load keeps a cache faithful, is never cut short, and exhausts the loaded name. -/
theorem loads (h : Faithful catalog cache) (hbuilt : catalog.Built)
    {outcome : Except Fault LoadStatus} (hload : Loads catalog.toSource name cache outcome later) :
    (∃ status, outcome = .ok status) ∧ Faithful catalog later ∧ Exhausted catalog later name := by
  cases hload with
  | alreadyComplete hcomplete => exact ⟨⟨_, rfl⟩, h, Or.inl hcomplete⟩
  | unresolved hincomplete hreply =>
    refine ⟨⟨_, rfl⟩, (h.withNode name).congr rfl rfl, Or.inr fun sub hd => ?_⟩
    have hmem := (Catalog.direct_iff_of_not_primitive (h.isPrimitive_eq_false hincomplete)).1 hd
    exact toSource_eq_unknown hreply (hbuilt.mem_known hmem).2
  | failed _ hreply =>
    rcases toSource_cases catalog cache.asked name with hc | ⟨_, hc⟩ <;> rw [hc] at hreply <;>
      cases hreply
  | crashed _ hreply => exact absurd hreply (toSource_ne_crashed catalog cache.asked name _)
  | truncated htaken => cases (h.takesIn hbuilt htaken).1
  | loaded htaken =>
    obtain ⟨-, hfilled, hcomplete⟩ := h.takesIn hbuilt htaken
    exact ⟨⟨_, rfl⟩, hfilled.withEvent _, Or.inl hcomplete⟩

end Faithful

end NominalSubtyping.Cache
