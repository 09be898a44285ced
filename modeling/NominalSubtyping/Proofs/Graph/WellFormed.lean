import Mathlib.Data.List.Perm.Subperm
import NominalSubtyping.Proofs.Action
import NominalSubtyping.Proofs.Graph.View

/-!
# Well-formed type graphs

In a *well-formed* type graph the index and the nodes agree, each edge is recorded on both of its
nodes, and no edge is recorded twice. The actions on a graph keep it well-formed and do not fail,
and they only ever *extend* it: numbers keep their names, lists of neighbours grow at their ends,
and a complete node stays complete.

On a well-formed graph the views can be read by name instead of by number.

## Main definitions

* `TypeGraph.WellFormed` : the index and the nodes agree, and so do the two halves of every edge.
* `TypeGraph.Extends` : one graph has grown into another.
* `TypeGraph.HasEdge` : an edge between two names.

## Main results

* `TypeGraph.link_eq` : recording an edge between nodes of a well-formed graph does not fail.
* `TypeGraph.WellFormed.withNode`, `TypeGraph.WellFormed.withEdge`,
  `TypeGraph.WellFormed.withComplete` : growing keeps a graph well-formed.
-/

namespace NominalSubtyping.TypeGraph

/-- The index and the nodes agree, both halves of every edge are there, and no edge is recorded
twice. -/
structure WellFormed (graph : TypeGraph) : Prop where
  lookup_iff : ∀ name id, graph.lookup name = some id ↔ graph.nameOf? id = some name
  symmetric : ∀ sup sub, sub ∈ graph.subtypesOf sup ↔ sup ∈ graph.supertypesOf sub
  nodup_subtypes : ∀ id, (graph.subtypesOf id).Nodup
  nodup_supertypes : ∀ id, (graph.supertypesOf id).Nodup

/-- The graph `later` has grown out of `graph`. -/
structure Extends (graph later : TypeGraph) : Prop where
  lookup : ∀ {name id}, graph.lookup name = some id → later.lookup name = some id
  nameOf? : ∀ {id name}, graph.nameOf? id = some name → later.nameOf? id = some name
  subtypes : ∀ id, graph.subtypesOf id <+: later.subtypesOf id
  supertypes : ∀ id, graph.supertypesOf id <+: later.supertypesOf id
  complete : ∀ {id}, graph.completeAt id = true → later.completeAt id = true

/-- The type named `sub` is recorded as a direct subtype of the type named `sup`. -/
def HasEdge (graph : TypeGraph) (sup sub : String) : Prop :=
  ∃ supId subId, graph.lookup sup = some supId ∧ graph.lookup sub = some subId ∧
    subId ∈ graph.subtypesOf supId

variable {graph : TypeGraph}

theorem wellFormed_empty : WellFormed {} where
  lookup_iff name id := by
    rw [nameOf?, Array.getElem?_empty, lookup, Std.TreeMap.getElem?_emptyc]
    simp
  symmetric sup sub := by
    rw [subtypesOf, supertypesOf, Array.getElem?_empty, Array.getElem?_empty]
    simp
  nodup_subtypes id := by
    rw [subtypesOf, Array.getElem?_empty]
    exact List.nodup_nil
  nodup_supertypes id := by
    rw [supertypesOf, Array.getElem?_empty]
    exact List.nodup_nil

/-! ### Growth -/

namespace Extends

theorem refl (graph : TypeGraph) : graph.Extends graph :=
  ⟨fun h => h, fun h => h, fun _ => List.prefix_refl _, fun _ => List.prefix_refl _, fun h => h⟩

theorem trans {middle later : TypeGraph} (h : graph.Extends middle) (h' : middle.Extends later) :
    graph.Extends later where
  lookup hl := h'.lookup (h.lookup hl)
  nameOf? hn := h'.nameOf? (h.nameOf? hn)
  subtypes id := (h.subtypes id).trans (h'.subtypes id)
  supertypes id := (h.supertypes id).trans (h'.supertypes id)
  complete hc := h'.complete (h.complete hc)

variable {later : TypeGraph} (h : graph.Extends later)

include h

theorem size_le : graph.size ≤ later.size := by
  by_contra hlt
  have hn : graph.nameOf? later.size ≠ none := fun hn => hlt (nameOf?_eq_none_iff.1 hn)
  obtain ⟨name, hname⟩ := Option.ne_none_iff_exists'.1 hn
  exact Nat.lt_irrefl _ (lt_size_of_nameOf? (h.nameOf? hname))

theorem isComplete {name : String} (hc : graph.isComplete name = true) :
    later.isComplete name = true := by
  obtain ⟨id, hid, hc⟩ := isComplete_eq_true_iff.1 hc
  exact isComplete_eq_true_iff.2 ⟨id, h.lookup hid, h.complete hc⟩

theorem hasEdge {sup sub : String} (he : graph.HasEdge sup sub) : later.HasEdge sup sub := by
  obtain ⟨supId, subId, hsup, hsub, hmem⟩ := he
  exact ⟨supId, subId, h.lookup hsup, h.lookup hsub, (h.subtypes supId).subset hmem⟩

end Extends

theorem extends_add {name : String} (hnew : graph.lookup name = none) :
    graph.Extends (graph.add name) where
  lookup {other id} hid := by
    rw [lookup_add]
    split
    · rename_i heq
      rw [← heq, hnew] at hid
      cases hid
    · exact hid
  nameOf? {id other} hn := by
    rw [nameOf?_add, if_neg (Nat.ne_of_lt (lt_size_of_nameOf? hn))]
    exact hn
  subtypes id := by simp
  supertypes id := by simp
  complete hc := by rwa [completeAt_add]

theorem extends_withNode (graph : TypeGraph) (name : String) :
    graph.Extends (graph.withNode name) := by
  rw [withNode]
  split
  · exact Extends.refl graph
  · exact extends_add ‹_›

theorem extends_withEdge {sup sub : NodeId} (hsup : sup < graph.size) (hsub : sub < graph.size) :
    graph.Extends (graph.withEdge sup sub) where
  lookup h := h
  nameOf? h := by rwa [nameOf?_withEdge]
  subtypes id := by
    rw [subtypesOf_withEdge id hsup]
    split
    · exact prefix_appendNew _ _
    · exact List.prefix_refl _
  supertypes id := by
    rw [supertypesOf_withEdge id hsub]
    split
    · exact prefix_appendNew _ _
    · exact List.prefix_refl _
  complete h := by rwa [completeAt_withEdge]

theorem extends_withComplete {id : NodeId} (hid : id < graph.size) :
    graph.Extends (graph.withComplete id) where
  lookup h := h
  nameOf? h := by rwa [nameOf?_withComplete]
  subtypes other := by simp
  supertypes other := by simp
  complete h := by
    rw [completeAt_withComplete _ hid, h]
    exact ite_self true

namespace WellFormed

theorem lt_size (h : graph.WellFormed) {name : String} {id : NodeId}
    (hid : graph.lookup name = some id) : id < graph.size :=
  lt_size_of_nameOf? ((h.lookup_iff name id).1 hid)

theorem exists_name {id : NodeId} (hid : id < graph.size) : ∃ name, graph.nameOf? id = some name :=
  Option.ne_none_iff_exists'.1 fun hn => Nat.not_le.2 hid (nameOf?_eq_none_iff.1 hn)

theorem lookup_nameAt (h : graph.WellFormed) {id : NodeId} (hid : id < graph.size) :
    graph.lookup (graph.nameAt id) = some id := by
  obtain ⟨name, hname⟩ := exists_name hid
  rw [nameAt, hname, Option.getD_some]
  exact (h.lookup_iff name id).2 hname

/-- Different nodes have different names. -/
theorem nameAt_inj (h : graph.WellFormed) {id other : NodeId} (hid : id < graph.size)
    (hother : other < graph.size) (heq : graph.nameAt id = graph.nameAt other) : id = other := by
  have hlookup := h.lookup_nameAt hid
  rw [heq] at hlookup
  exact Option.some.inj (hlookup.symm.trans (h.lookup_nameAt hother))

theorem lookup_inj (h : graph.WellFormed) {name other : String} {id : NodeId}
    (hn : graph.lookup name = some id) (ho : graph.lookup other = some id) : name = other :=
  Option.some.inj (((h.lookup_iff name id).1 hn).symm.trans ((h.lookup_iff other id).1 ho))

/-- Both ends of an edge have nodes. -/
theorem lt_size_of_mem (h : graph.WellFormed) {sup sub : NodeId}
    (hmem : sub ∈ graph.subtypesOf sup) : sup < graph.size ∧ sub < graph.size :=
  ⟨lt_size_of_mem_subtypesOf hmem, lt_size_of_mem_supertypesOf ((h.symmetric sup sub).1 hmem)⟩

/-! ### One more node -/

theorem add (h : graph.WellFormed) {name : String} (hnew : graph.lookup name = none) :
    (graph.add name).WellFormed where
  lookup_iff other id := by
    rw [lookup_add, nameOf?_add]
    by_cases hother : name = other
    · subst hother
      rw [if_pos rfl]
      split
      · rename_i hid
        simp [hid]
      · rename_i hid
        have hne : graph.nameOf? id ≠ some name := fun hn => by
          rw [(h.lookup_iff name id).2 hn] at hnew
          cases hnew
        exact ⟨fun hs => absurd (Option.some.inj hs).symm hid, fun hn => absurd hn hne⟩
    · rw [if_neg hother]
      split
      · rename_i hid
        have hne : graph.lookup other ≠ some id := fun hl =>
          Nat.ne_of_lt (h.lt_size hl) hid
        exact ⟨fun hl => absurd hl hne, fun hs => absurd (Option.some.inj hs) hother⟩
      · exact h.lookup_iff other id
  symmetric sup sub := by
    rw [subtypesOf_add, supertypesOf_add]
    exact h.symmetric sup sub
  nodup_subtypes id := by
    rw [subtypesOf_add]
    exact h.nodup_subtypes id
  nodup_supertypes id := by
    rw [supertypesOf_add]
    exact h.nodup_supertypes id

theorem withNode (h : graph.WellFormed) (name : String) : (graph.withNode name).WellFormed := by
  rw [TypeGraph.withNode]
  split
  · exact h
  · exact h.add ‹_›

/-! ### One more edge -/

theorem mem_subtypesOf_withEdge {sup sub id other : NodeId} (hsup : sup < graph.size) :
    other ∈ (graph.withEdge sup sub).subtypesOf id ↔
      other ∈ graph.subtypesOf id ∨ (sup = id ∧ other = sub) := by
  rw [subtypesOf_withEdge id hsup]
  split
  · rename_i h
    rw [mem_appendNew, h]
    simp
  · rename_i h
    simp [h]

theorem mem_supertypesOf_withEdge {sup sub id other : NodeId} (hsub : sub < graph.size) :
    other ∈ (graph.withEdge sup sub).supertypesOf id ↔
      other ∈ graph.supertypesOf id ∨ (sub = id ∧ other = sup) := by
  rw [supertypesOf_withEdge id hsub]
  split
  · rename_i h
    rw [mem_appendNew, h]
    simp
  · rename_i h
    simp [h]

theorem withEdge (h : graph.WellFormed) {sup sub : NodeId} (hsup : sup < graph.size)
    (hsub : sub < graph.size) : (graph.withEdge sup sub).WellFormed where
  lookup_iff name id := by
    rw [lookup_withEdge, nameOf?_withEdge]
    exact h.lookup_iff name id
  symmetric a b := by
    rw [mem_subtypesOf_withEdge hsup, mem_supertypesOf_withEdge hsub, h.symmetric]
    exact or_congr Iff.rfl ⟨fun ⟨ha, hb⟩ => ⟨hb.symm, ha.symm⟩, fun ⟨hb, ha⟩ => ⟨ha.symm, hb.symm⟩⟩
  nodup_subtypes id := by
    rw [subtypesOf_withEdge id hsup]
    split
    · exact nodup_appendNew (h.nodup_subtypes id) sub
    · exact h.nodup_subtypes id
  nodup_supertypes id := by
    rw [supertypesOf_withEdge id hsub]
    split
    · exact nodup_appendNew (h.nodup_supertypes id) sup
    · exact h.nodup_supertypes id

/-! ### One more complete node -/

theorem withComplete (h : graph.WellFormed) (id : NodeId) : (graph.withComplete id).WellFormed where
  lookup_iff name other := by
    rw [lookup_withComplete, nameOf?_withComplete]
    exact h.lookup_iff name other
  symmetric sup sub := by
    rw [subtypesOf_withComplete, supertypesOf_withComplete]
    exact h.symmetric sup sub
  nodup_subtypes other := by
    rw [subtypesOf_withComplete]
    exact h.nodup_subtypes other
  nodup_supertypes other := by
    rw [supertypesOf_withComplete]
    exact h.nodup_supertypes other

end WellFormed

/-- Both halves of an edge between nodes of a well-formed graph are new, or neither is. -/
theorem link_eq (h : graph.WellFormed) {sup sub : NodeId} (hsup : sup < graph.size)
    (hsub : sub < graph.size) : link sup sub graph = .ok () (graph.withEdge sup sub) := by
  obtain ⟨upper, hupper, hdown⟩ := graph.update_eq hsup (·.addSubtype sub)
  have hsub' : sub < (graph.modify sup fun node => (node.addSubtype sub).2).size := by
    rwa [size, modify, Array.size_modify]
  obtain ⟨lower, hlower, hup⟩ := update_eq _ hsub' (·.addSupertype sup)
  have hnew : (upper.addSubtype sub).1 = (lower.addSupertype sup).1 := by
    have hd : sub ∈ upper.subtypes ↔ sub ∈ graph.subtypesOf sup := by
      rw [subtypesOf, hupper]
      rfl
    have hu : sup ∈ lower.supertypes ↔ sup ∈ graph.supertypesOf sub := by
      have : lower.supertypes = graph.supertypesOf sub := by
        rw [getElem?_modify] at hlower
        rw [supertypesOf]
        split at hlower
        · obtain ⟨node, hnode, rfl⟩ := Option.map_eq_some_iff.1 hlower
          rw [hnode]
          exact TypeNode.supertypes_addSubtype node sub
        · rw [hlower]
          rfl
      rw [this]
    rw [TypeNode.addSubtype, TypeNode.addSupertype]
    by_cases hmem : sub ∈ graph.subtypesOf sup
    · rw [if_pos (hd.2 hmem), if_pos (hu.2 ((h.symmetric sup sub).1 hmem))]
    · rw [if_neg (mt hd.1 hmem), if_neg (mt hu.1 (mt (h.symmetric sup sub).2 hmem))]
  rw [link, bind_eq_of_ok hdown, bind_eq_of_ok hup, if_pos hnew]
  rfl

/-! ### Reading by name -/

section Names

variable (h : graph.WellFormed)

include h

theorem hasEdge_withNode {name sup sub : String} :
    (graph.withNode name).HasEdge sup sub ↔ graph.HasEdge sup sub := by
  refine ⟨fun he => ?_, (graph.extends_withNode name).hasEdge⟩
  obtain ⟨supId, subId, hsup, hsub, hmem⟩ := he
  rw [subtypesOf_withNode] at hmem
  obtain ⟨hlt, hlt'⟩ := h.lt_size_of_mem hmem
  -- Both ends were in range before, so their names were in the index before.
  have hold {other : String} {id : NodeId} (hid : id < graph.size)
      (hl : (graph.withNode name).lookup other = some id) : graph.lookup other = some id := by
    obtain ⟨known, hknown⟩ := WellFormed.exists_name hid
    have hl' := (graph.extends_withNode name).lookup ((h.lookup_iff known id).2 hknown)
    rw [(h.withNode name).lookup_inj hl hl']
    exact (h.lookup_iff known id).2 hknown
  exact ⟨supId, subId, hold hlt hsup, hold hlt' hsub, hmem⟩

theorem isComplete_withNode {name other : String} :
    (graph.withNode name).isComplete other = graph.isComplete other := by
  rw [Bool.eq_iff_iff]
  refine ⟨fun hc => ?_, (graph.extends_withNode name).isComplete⟩
  obtain ⟨id, hid, hc⟩ := isComplete_eq_true_iff.1 hc
  rw [completeAt_withNode] at hc
  have hlt : id < graph.size := by
    by_contra hlt
    rw [completeAt, Array.getElem?_eq_none (Nat.le_of_not_lt hlt)] at hc
    cases hc
  obtain ⟨known, hknown⟩ := WellFormed.exists_name hlt
  have hl := (graph.extends_withNode name).lookup ((h.lookup_iff known id).2 hknown)
  rw [(h.withNode name).lookup_inj hid hl]
  exact isComplete_eq_true_iff.2 ⟨id, (h.lookup_iff known id).2 hknown, hc⟩

theorem hasEdge_withEdge {sup sub a b : String} {supId subId : NodeId}
    (hsup : graph.lookup sup = some supId) (hsub : graph.lookup sub = some subId) :
    (graph.withEdge supId subId).HasEdge a b ↔ graph.HasEdge a b ∨ (a = sup ∧ b = sub) := by
  constructor
  · rintro ⟨i, j, hi, hj, hmem⟩
    rw [lookup_withEdge] at hi hj
    rcases (WellFormed.mem_subtypesOf_withEdge (h.lt_size hsup)).1 hmem with hmem | ⟨rfl, rfl⟩
    · exact Or.inl ⟨i, j, hi, hj, hmem⟩
    · exact Or.inr ⟨h.lookup_inj hi hsup, h.lookup_inj hj hsub⟩
  · rintro (he | ⟨rfl, rfl⟩)
    · exact (extends_withEdge (h.lt_size hsup) (h.lt_size hsub)).hasEdge he
    · exact ⟨supId, subId, hsup, hsub,
        (WellFormed.mem_subtypesOf_withEdge (h.lt_size hsup)).2 (Or.inr ⟨rfl, rfl⟩)⟩

theorem isComplete_withComplete {name other : String} {id : NodeId}
    (hid : graph.lookup name = some id) :
    (graph.withComplete id).isComplete other = true ↔
      graph.isComplete other = true ∨ other = name := by
  constructor
  · intro hc
    obtain ⟨j, hj, hc⟩ := isComplete_eq_true_iff.1 hc
    rw [completeAt_withComplete _ (h.lt_size hid)] at hc
    split at hc
    · rename_i heq
      exact Or.inr (h.lookup_inj hj (heq ▸ hid))
    · exact Or.inl (isComplete_eq_true_iff.2 ⟨j, hj, hc⟩)
  · rintro (hc | rfl)
    · exact (extends_withComplete (h.lt_size hid)).isComplete hc
    · refine isComplete_eq_true_iff.2 ⟨id, hid, ?_⟩
      rw [completeAt_withComplete _ (h.lt_size hid), if_pos rfl]

end Names

@[simp] theorem isComplete_withEdge {supId subId : NodeId} (name : String) :
    (graph.withEdge supId subId).isComplete name = graph.isComplete name := by
  rw [Bool.eq_iff_iff, isComplete_eq_true_iff, isComplete_eq_true_iff]
  simp

@[simp] theorem hasEdge_withComplete {id : NodeId} {sup sub : String} :
    (graph.withComplete id).HasEdge sup sub ↔ graph.HasEdge sup sub := by
  simp [HasEdge]

/-! ### Names with nodes -/

section Nodes

variable {name other : String}

theorem contains_eq_true_iff : graph.contains name = true ↔ ∃ id, graph.lookup name = some id := by
  rw [contains, decide_eq_true_iff, lookup, ← Option.isSome_iff_exists,
    Std.TreeMap.isSome_getElem?_iff_mem]

theorem Extends.contains {later : TypeGraph} (h : graph.Extends later)
    (hc : graph.contains name = true) : later.contains name = true := by
  obtain ⟨id, hid⟩ := contains_eq_true_iff.1 hc
  exact contains_eq_true_iff.2 ⟨id, h.lookup hid⟩

theorem contains_of_isComplete (h : graph.isComplete name = true) : graph.contains name = true := by
  obtain ⟨id, hid, -⟩ := isComplete_eq_true_iff.1 h
  exact contains_eq_true_iff.2 ⟨id, hid⟩

theorem HasEdge.contains {sup sub : String} (h : graph.HasEdge sup sub) :
    graph.contains sub = true := by
  obtain ⟨_, id, -, hid, -⟩ := h
  exact contains_eq_true_iff.2 ⟨id, hid⟩

theorem contains_withNode :
    (graph.withNode name).contains other = true ↔ graph.contains other = true ∨ other = name := by
  rw [withNode]
  cases hlookup : graph.lookup name with
  | some id =>
    refine ⟨Or.inl, ?_⟩
    rintro (hc | rfl)
    · exact hc
    · exact contains_eq_true_iff.2 ⟨id, hlookup⟩
  | none =>
    simp only [contains_eq_true_iff, lookup_add]
    by_cases heq : name = other
    · simp [heq]
    · simp [heq, Ne.symm heq]

@[simp] theorem contains_withEdge {sup sub : NodeId} :
    (graph.withEdge sup sub).contains name = graph.contains name := by
  rw [Bool.eq_iff_iff, contains_eq_true_iff, contains_eq_true_iff, lookup_withEdge]

@[simp] theorem contains_withComplete {id : NodeId} :
    (graph.withComplete id).contains name = graph.contains name := by
  rw [Bool.eq_iff_iff, contains_eq_true_iff, contains_eq_true_iff, lookup_withComplete]

end Nodes

/-! ### Lists of neighbours that did not grow -/

namespace Extends

variable {later : TypeGraph} {name : String} {id : NodeId}

/-- A node from which no new edge leads down keeps its list of subtypes. -/
theorem subtypesOf_eq (h : graph.Extends later) (hlater : later.WellFormed)
    (hid : graph.lookup name = some id)
    (hold : ∀ sub, later.HasEdge name sub → graph.HasEdge name sub) :
    later.subtypesOf id = graph.subtypesOf id := by
  have hsubset : later.subtypesOf id ⊆ graph.subtypesOf id := by
    intro subId hmem
    obtain ⟨sub, hsub⟩ := WellFormed.exists_name (hlater.lt_size_of_mem hmem).2
    have hlookup := (hlater.lookup_iff sub subId).2 hsub
    obtain ⟨id', subId', hid', hsub', hmem'⟩ := hold sub ⟨id, subId, h.lookup hid, hlookup, hmem⟩
    obtain rfl := Option.some.inj (hid.symm.trans hid')
    rwa [← Option.some.inj ((h.lookup hsub').symm.trans hlookup)]
  have hlength := ((hlater.nodup_subtypes id).subperm hsubset).length_le
  exact ((h.subtypes id).eq_of_length_le hlength).symm

/-- A node to which no new edge leads down keeps its list of supertypes. -/
theorem supertypesOf_eq (h : graph.Extends later) (hgraph : graph.WellFormed)
    (hlater : later.WellFormed) (hid : graph.lookup name = some id)
    (hold : ∀ sup, later.HasEdge sup name → graph.HasEdge sup name) :
    later.supertypesOf id = graph.supertypesOf id := by
  have hsubset : later.supertypesOf id ⊆ graph.supertypesOf id := by
    intro supId hmem
    have hmem := (hlater.symmetric supId id).2 hmem
    obtain ⟨sup, hsup⟩ := WellFormed.exists_name (hlater.lt_size_of_mem hmem).1
    have hlookup := (hlater.lookup_iff sup supId).2 hsup
    obtain ⟨supId', id', hsup', hid', hmem'⟩ := hold sup ⟨supId, id, hlookup, h.lookup hid, hmem⟩
    obtain rfl := Option.some.inj (hid.symm.trans hid')
    rw [← Option.some.inj ((h.lookup hsup').symm.trans hlookup)]
    exact (hgraph.symmetric supId' id).1 hmem'
  have hlength := ((hlater.nodup_supertypes id).subperm hsubset).length_le
  exact ((h.supertypes id).eq_of_length_le hlength).symm

end Extends

/-- Complete names stand for as many complete nodes. -/
theorem length_le_completeCount (h : graph.WellFormed) {names : List String} (hnodup : names.Nodup)
    (hcomplete : ∀ name ∈ names, graph.isComplete name = true) :
    names.length ≤ graph.completeCount := by
  have hsubset : names ⊆ (graph.nodes.toList.filter (·.complete)).map TypeNode.name := by
    intro name hname
    obtain ⟨id, hid, hc⟩ := isComplete_eq_true_iff.1 (hcomplete name hname)
    have hnamed := (h.lookup_iff name id).1 hid
    rw [nameOf?, Option.map_eq_some_iff] at hnamed
    obtain ⟨node, hnode, rfl⟩ := hnamed
    rw [completeAt, hnode] at hc
    refine List.mem_map_of_mem (List.mem_filter.2 ⟨?_, hc⟩)
    exact Array.mem_toList_iff.2 (Array.mem_of_getElem? hnode)
  have hlength := (hnodup.subperm hsubset).length_le
  rwa [List.length_map, ← List.countP_eq_length_filter, Array.countP_toList] at hlength

end NominalSubtyping.TypeGraph
