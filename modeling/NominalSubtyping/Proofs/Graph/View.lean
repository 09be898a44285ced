import Mathlib.Tactic.ByContra
import NominalSubtyping.Graph.Basic

/-!
# What a type graph shows

A type graph is read through four functions of a node number: the name of the node, its direct
supertypes, its direct subtypes, and whether it is complete. A number that the graph does not have
shows no name, no neighbours, and is not complete, so a new node without edges changes nothing but
the names. The three ways in which a graph grows are described by what they do to these views.

## Main definitions

* `TypeGraph.nameOf?`, `TypeGraph.supertypesOf`, `TypeGraph.subtypesOf`, `TypeGraph.completeAt` :
  the views. `TypeGraph.nameAt` is the name where a node is known to be there.
* `TypeGraph.withNode`, `TypeGraph.withEdge`, `TypeGraph.withComplete` : the graph with one more
  node, edge or complete node.

## Main results

* `TypeGraph.intern_eq`, `TypeGraph.link_eq`, `TypeGraph.markComplete_eq` : the actions on a graph
  lead to the grown graphs.
-/

namespace NominalSubtyping

namespace TypeNode

@[simp] theorem name_addSupertype (node : TypeNode) (id : NodeId) :
    (node.addSupertype id).2.name = node.name := by
  rw [addSupertype]
  split <;> rfl

@[simp] theorem subtypes_addSupertype (node : TypeNode) (id : NodeId) :
    (node.addSupertype id).2.subtypes = node.subtypes := by
  rw [addSupertype]
  split <;> rfl

@[simp] theorem complete_addSupertype (node : TypeNode) (id : NodeId) :
    (node.addSupertype id).2.complete = node.complete := by
  rw [addSupertype]
  split <;> rfl

@[simp] theorem name_addSubtype (node : TypeNode) (id : NodeId) :
    (node.addSubtype id).2.name = node.name := by
  rw [addSubtype]
  split <;> rfl

@[simp] theorem supertypes_addSubtype (node : TypeNode) (id : NodeId) :
    (node.addSubtype id).2.supertypes = node.supertypes := by
  rw [addSubtype]
  split <;> rfl

@[simp] theorem complete_addSubtype (node : TypeNode) (id : NodeId) :
    (node.addSubtype id).2.complete = node.complete := by
  rw [addSubtype]
  split <;> rfl

end TypeNode

/-- A list with `id` as its last entry, unless `id` is in it. -/
def appendNew (ids : List NodeId) (id : NodeId) : List NodeId :=
  if id ∈ ids then ids else ids ++ [id]

@[simp] theorem mem_appendNew {ids : List NodeId} {id other : NodeId} :
    other ∈ appendNew ids id ↔ other ∈ ids ∨ other = id := by
  rw [appendNew]
  split
  · rename_i h
    exact ⟨Or.inl, fun ho => ho.elim (fun ho => ho) fun ho => ho ▸ h⟩
  · rw [List.mem_append, List.mem_singleton]

theorem nodup_appendNew {ids : List NodeId} (h : ids.Nodup) (id : NodeId) :
    (appendNew ids id).Nodup := by
  rw [appendNew]
  split
  · exact h
  · rename_i hid
    rw [List.nodup_append]
    refine ⟨h, by simp, fun a ha b hb => ?_⟩
    rw [List.mem_singleton.1 hb]
    exact fun hab => hid (hab ▸ ha)

theorem prefix_appendNew (ids : List NodeId) (id : NodeId) : ids <+: appendNew ids id := by
  rw [appendNew]
  split
  · exact List.prefix_refl ids
  · exact List.prefix_append ids [id]

theorem TypeNode.supertypes_addSupertype (node : TypeNode) (id : NodeId) :
    (node.addSupertype id).2.supertypes = appendNew node.supertypes id := by
  rw [addSupertype, appendNew]
  split <;> rfl

theorem TypeNode.subtypes_addSubtype (node : TypeNode) (id : NodeId) :
    (node.addSubtype id).2.subtypes = appendNew node.subtypes id := by
  rw [addSubtype, appendNew]
  split <;> rfl

namespace TypeGraph

/-! ### Views -/

/-- The name of a node. -/
def nameOf? (graph : TypeGraph) (id : NodeId) : Option String :=
  graph.nodes[id]?.map TypeNode.name

/-- The name of a node, empty if there is no such node. -/
def nameAt (graph : TypeGraph) (id : NodeId) : String :=
  (graph.nameOf? id).getD ""

/-- The direct supertypes of a node. -/
def supertypesOf (graph : TypeGraph) (id : NodeId) : List NodeId :=
  (graph.nodes[id]?.map TypeNode.supertypes).getD []

/-- The direct subtypes of a node. -/
def subtypesOf (graph : TypeGraph) (id : NodeId) : List NodeId :=
  (graph.nodes[id]?.map TypeNode.subtypes).getD []

/-- Whether a node is complete. -/
def completeAt (graph : TypeGraph) (id : NodeId) : Bool :=
  graph.nodes[id]?.any TypeNode.complete

theorem nameOf?_eq_none_iff {graph : TypeGraph} {id : NodeId} :
    graph.nameOf? id = none ↔ graph.size ≤ id := by
  rw [nameOf?, Option.map_eq_none_iff, Array.getElem?_eq_none_iff]
  rfl

theorem lt_size_of_nameOf? {graph : TypeGraph} {id : NodeId} {name : String}
    (h : graph.nameOf? id = some name) : id < graph.size := by
  by_contra hlt
  rw [nameOf?_eq_none_iff.2 (Nat.le_of_not_lt hlt)] at h
  cases h

theorem lt_size_of_mem_supertypesOf {graph : TypeGraph} {id sup : NodeId}
    (h : sup ∈ graph.supertypesOf id) : id < graph.size := by
  by_contra hlt
  rw [supertypesOf, Array.getElem?_eq_none (Nat.le_of_not_lt hlt)] at h
  exact List.not_mem_nil h

theorem lt_size_of_mem_subtypesOf {graph : TypeGraph} {id sub : NodeId}
    (h : sub ∈ graph.subtypesOf id) : id < graph.size := by
  by_contra hlt
  rw [subtypesOf, Array.getElem?_eq_none (Nat.le_of_not_lt hlt)] at h
  exact List.not_mem_nil h

theorem node_eq_ok {graph : TypeGraph} {id : NodeId} (h : id < graph.size) :
    ∃ node, graph.node id = .ok node ∧ node.complete = graph.completeAt id := by
  refine ⟨graph.nodes[id], ?_, ?_⟩
  · rw [node, Array.getElem?_eq_getElem h]
  · rw [completeAt, Array.getElem?_eq_getElem h]
    rfl

theorem isComplete_eq_true_iff {graph : TypeGraph} {name : String} :
    graph.isComplete name = true ↔
      ∃ id, graph.lookup name = some id ∧ graph.completeAt id = true := by
  rw [isComplete, nodeNamed?]
  cases graph.lookup name with
  | none => simp
  | some id => simp [completeAt]

theorem isComplete_eq_false {graph : TypeGraph} {name : String} {id : NodeId}
    (hid : graph.lookup name = some id) (hcomplete : graph.completeAt id = false) :
    graph.isComplete name = false := by
  rw [Bool.eq_false_iff, ne_eq, isComplete_eq_true_iff]
  rintro ⟨other, hother, hc⟩
  rw [Option.some.inj (hother.symm.trans hid), hcomplete] at hc
  cases hc

/-! ### One more node -/

section Add

variable (graph : TypeGraph) (name : String) (id : NodeId)

theorem getElem?_add : (graph.add name).nodes[id]? =
    if id = graph.size then some { name } else graph.nodes[id]? :=
  Array.getElem?_push

theorem nodeNamed?_add : (graph.add name).nodeNamed? name = some { name } := by
  rw [nodeNamed?, lookup_add, if_pos rfl, Option.bind_some, getElem?_add, if_pos rfl]

theorem nameOf?_add :
    (graph.add name).nameOf? id = if id = graph.size then some name else graph.nameOf? id := by
  rw [nameOf?, getElem?_add]
  split <;> rfl

theorem getElem?_size_eq_none : graph.nodes[graph.size]? = none :=
  Array.getElem?_eq_none (Nat.le_refl _)

@[simp] theorem supertypesOf_add : (graph.add name).supertypesOf id = graph.supertypesOf id := by
  rw [supertypesOf, getElem?_add]
  split
  · rename_i h
    rw [supertypesOf, h, getElem?_size_eq_none]
    rfl
  · rfl

@[simp] theorem subtypesOf_add : (graph.add name).subtypesOf id = graph.subtypesOf id := by
  rw [subtypesOf, getElem?_add]
  split
  · rename_i h
    rw [subtypesOf, h, getElem?_size_eq_none]
    rfl
  · rfl

@[simp] theorem completeAt_add : (graph.add name).completeAt id = graph.completeAt id := by
  rw [completeAt, getElem?_add]
  split
  · rename_i h
    rw [completeAt, h, getElem?_size_eq_none]
    rfl
  · rfl

/-- The graph with a node for `name`. -/
def withNode : TypeGraph :=
  match graph.lookup name with
  | some _ => graph
  | none => graph.add name

theorem intern_eq : ∃ id, (graph.withNode name).lookup name = some id ∧
    intern name graph = .ok id (graph.withNode name) := by
  rw [withNode, intern]
  cases h : graph.lookup name with
  | some id => exact ⟨id, h, rfl⟩
  | none =>
    refine ⟨graph.size, ?_, rfl⟩
    rw [lookup_add, if_pos rfl]

@[simp] theorem supertypesOf_withNode :
    (graph.withNode name).supertypesOf id = graph.supertypesOf id := by
  rw [withNode]
  split
  · rfl
  · exact supertypesOf_add ..

@[simp] theorem subtypesOf_withNode :
    (graph.withNode name).subtypesOf id = graph.subtypesOf id := by
  rw [withNode]
  split
  · rfl
  · exact subtypesOf_add ..

@[simp] theorem completeAt_withNode :
    (graph.withNode name).completeAt id = graph.completeAt id := by
  rw [withNode]
  split
  · rfl
  · exact completeAt_add ..

end Add

/-! ### One more edge -/

section Modify

variable (graph : TypeGraph)

/-- The graph with one node changed. -/
def modify (id : NodeId) (change : TypeNode → TypeNode) : TypeGraph :=
  { graph with nodes := graph.nodes.modify id change }

theorem getElem?_modify (id other : NodeId) (change : TypeNode → TypeNode) :
    (graph.modify id change).nodes[other]? =
      if id = other then graph.nodes[other]?.map change else graph.nodes[other]? :=
  Array.getElem?_modify

theorem update_eq {α : Type} {id : NodeId} (h : id < graph.size)
    (change : TypeNode → α × TypeNode) :
    ∃ node, graph.nodes[id]? = some node ∧
      update id change graph =
        .ok (change node).1 (graph.modify id fun node => (change node).2) := by
  have hid : id < graph.nodes.size := h
  have hset : graph.nodes.set id (change graph.nodes[id]).2 hid =
      graph.nodes.modify id fun node => (change node).2 := by
    refine Array.ext_getElem? fun other => ?_
    rw [Array.getElem?_set, Array.getElem?_modify]
    split
    · rename_i heq
      rw [← heq, Array.getElem?_eq_getElem hid]
      rfl
    · rfl
  refine ⟨graph.nodes[id], Array.getElem?_eq_getElem hid, ?_⟩
  rw [update, dif_pos hid, modify, ← hset]

/-- The graph with both halves of an edge. -/
def withEdge (sup sub : NodeId) : TypeGraph :=
  (graph.modify sup fun node => (node.addSubtype sub).2).modify sub fun node =>
    (node.addSupertype sup).2

variable (sup sub id : NodeId)

@[simp] theorem size_withEdge : (graph.withEdge sup sub).size = graph.size := by
  simp [withEdge, modify, size]

@[simp] theorem lookup_withEdge (name : String) :
    (graph.withEdge sup sub).lookup name = graph.lookup name :=
  rfl

@[simp] theorem nameOf?_withEdge : (graph.withEdge sup sub).nameOf? id = graph.nameOf? id := by
  simp only [nameOf?, withEdge, getElem?_modify]
  split <;> split <;> cases graph.nodes[id]? <;> simp

@[simp] theorem completeAt_withEdge :
    (graph.withEdge sup sub).completeAt id = graph.completeAt id := by
  simp only [completeAt, withEdge, getElem?_modify]
  split <;> split <;> cases graph.nodes[id]? <;> simp

variable {graph sup sub}

theorem subtypesOf_withEdge (h : sup < graph.size) :
    (graph.withEdge sup sub).subtypesOf id =
      if sup = id then appendNew (graph.subtypesOf id) sub else graph.subtypesOf id := by
  simp only [subtypesOf, withEdge, getElem?_modify]
  by_cases hid : sup = id
  · subst hid
    rw [if_pos rfl, if_pos rfl, Array.getElem?_eq_getElem h]
    split <;> simp [TypeNode.subtypes_addSubtype]
  · rw [if_neg hid, if_neg hid]
    split <;> cases graph.nodes[id]? <;> simp

theorem supertypesOf_withEdge (h : sub < graph.size) :
    (graph.withEdge sup sub).supertypesOf id =
      if sub = id then appendNew (graph.supertypesOf id) sup else graph.supertypesOf id := by
  simp only [supertypesOf, withEdge, getElem?_modify]
  by_cases hid : sub = id
  · subst hid
    rw [if_pos rfl, if_pos rfl, Array.getElem?_eq_getElem h]
    split <;> simp [TypeNode.supertypes_addSupertype]
  · rw [if_neg hid, if_neg hid]
    split <;> cases graph.nodes[id]? <;> simp

/-! ### One more complete node -/

variable (graph)

/-- The graph with one node marked complete. -/
def withComplete : TypeGraph :=
  graph.modify id TypeNode.markComplete

@[simp] theorem size_withComplete : (graph.withComplete id).size = graph.size := by
  simp [withComplete, modify, size]

@[simp] theorem lookup_withComplete (name : String) :
    (graph.withComplete id).lookup name = graph.lookup name :=
  rfl

variable (other : NodeId)

@[simp] theorem nameOf?_withComplete :
    (graph.withComplete id).nameOf? other = graph.nameOf? other := by
  simp only [nameOf?, withComplete, getElem?_modify]
  split <;> cases graph.nodes[other]? <;> rfl

@[simp] theorem supertypesOf_withComplete :
    (graph.withComplete id).supertypesOf other = graph.supertypesOf other := by
  simp only [supertypesOf, withComplete, getElem?_modify]
  split <;> cases graph.nodes[other]? <;> rfl

@[simp] theorem subtypesOf_withComplete :
    (graph.withComplete id).subtypesOf other = graph.subtypesOf other := by
  simp only [subtypesOf, withComplete, getElem?_modify]
  split <;> cases graph.nodes[other]? <;> rfl

variable {graph}

theorem completeAt_withComplete {id : NodeId} (h : id < graph.size) :
    (graph.withComplete id).completeAt other =
      if id = other then true else graph.completeAt other := by
  simp only [completeAt, withComplete, getElem?_modify]
  by_cases hid : id = other
  · subst hid
    rw [if_pos rfl, if_pos rfl, Array.getElem?_eq_getElem h]
    rfl
  · rw [if_neg hid, if_neg hid]

theorem markComplete_eq {id : NodeId} (h : id < graph.size) :
    markComplete id graph = .ok () (graph.withComplete id) := by
  obtain ⟨node, -, hupdate⟩ := graph.update_eq h fun node => ((), node.markComplete)
  exact hupdate

end Modify

end TypeGraph

end NominalSubtyping
