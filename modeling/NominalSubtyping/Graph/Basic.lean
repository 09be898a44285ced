import NominalSubtyping.Fault
import NominalSubtyping.Focus
import NominalSubtyping.Graph.Node
import NominalSubtyping.Primitive
import Std.Data.TreeMap

/-!
# Type graphs

A *type graph* holds one node per type name, and an index from names to nodes. Every edge is
recorded on both of its nodes. Nodes are only ever added, and they keep their numbers.

## Main definitions

* `TypeGraph.intern` : the node of a name, made if need be.
* `TypeGraph.link` : records an edge on both of its nodes.
* `TypeGraph.primitives` : the graph of the primitive types, with which every session begins.
-/

namespace NominalSubtyping

/-- Type nodes by number, and their numbers by name. -/
structure TypeGraph where
  nodes : Array TypeNode := #[]
  index : Std.TreeMap String NodeId := ∅

/-- Actions on a type graph. -/
abbrev GraphM := EStateM Fault TypeGraph

namespace TypeGraph

/-! ### Reading -/

/-- The number of nodes. -/
def size (graph : TypeGraph) : Nat :=
  graph.nodes.size

/-- The number of the type `name`, if it has a node. -/
def lookup (graph : TypeGraph) (name : String) : Option NodeId :=
  graph.index[name]?

/-- Whether the type `name` has a node. -/
def contains (graph : TypeGraph) (name : String) : Bool :=
  name ∈ graph.index

/-- The node with the number `id`; asking for one that the graph does not have is a fault. -/
def node (graph : TypeGraph) (id : NodeId) : Except Fault TypeNode :=
  match graph.nodes[id]? with
  | some node => .ok node
  | none => .error (.noSuchNode graph.size id)

/-- The node of the type `name`, if it has one. -/
def nodeNamed? (graph : TypeGraph) (name : String) : Option TypeNode :=
  (graph.lookup name).bind (graph.nodes[·]?)

/-- Whether everything below the type `name` has been loaded. -/
def isComplete (graph : TypeGraph) (name : String) : Bool :=
  (graph.nodeNamed? name).any (·.complete)

/-- The number of complete nodes. -/
def completeCount (graph : TypeGraph) : Nat :=
  graph.nodes.countP (·.complete)

/-- The number of edges, counted on their supertypes. -/
def edgeCount (graph : TypeGraph) : Nat :=
  graph.nodes.foldl (fun count node => count + node.subtypes.length) 0

/-! ### Growing -/

/-- Adds a node without edges for `name`. -/
def add (graph : TypeGraph) (name : String) : TypeGraph where
  nodes := graph.nodes.push { name }
  index := graph.index.insert name graph.nodes.size

@[simp]
theorem size_add (graph : TypeGraph) (name : String) : (graph.add name).size = graph.size + 1 :=
  Array.size_push ..

theorem lookup_add (graph : TypeGraph) (name other : String) :
    (graph.add name).lookup other =
      if name = other then some graph.size else graph.lookup other := by
  simp only [add, lookup, Std.TreeMap.getElem?_insert, Std.LawfulEqCmp.compare_eq_iff_eq]
  rfl

/-- The number of the type `name`, which gets a node if it has none. -/
def intern (name : String) : GraphM NodeId := fun graph =>
  match graph.lookup name with
  | some id => .ok id graph
  | none => .ok graph.size (graph.add name)

/-- Changes one node. -/
def update {α : Type} (id : NodeId) (change : TypeNode → α × TypeNode) : GraphM α :=
  fun ⟨nodes, index⟩ =>
    if h : id < nodes.size then
      match change nodes[id] with
      | (value, node) => .ok value ⟨nodes.set id node h, index⟩
    else
      .error (.noSuchNode nodes.size id) ⟨nodes, index⟩

/-- Records `sub` as a direct subtype of `sup`: first on the node of `sup`, then on that of `sub`.
Both halves of the edge must be new, or neither. -/
def link (sup sub : NodeId) : GraphM Unit := do
  let down ← update sup (·.addSubtype sub)
  let up ← update sub (·.addSupertype sup)
  if down = up then return () else throw (.halfEdge down up)

/-- Marks a node complete. -/
def markComplete (id : NodeId) : GraphM Unit :=
  update id fun node => ((), node.markComplete)

/-! ### The primitive types -/

/-- Adds the primitive types and their widenings, and marks them complete. -/
def addPrimitives : GraphM Unit := do
  Primitive.all.forM fun type => discard (intern type.name)
  Primitive.widenings.forM fun (sub, sup) => do
    let sub ← intern sub.name
    let sup ← intern sup.name
    link sup sub
  Primitive.all.forM fun type => do markComplete (← intern type.name)

/-- The graph of the primitive types. -/
def primitives : TypeGraph :=
  finalState addPrimitives {}

end TypeGraph

end NominalSubtyping
