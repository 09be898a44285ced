import NominalSubtyping.Graph.Basic
import NominalSubtyping.Search

/-!
# Reachability in a type graph

Subtyping between type names is reachability over supertype edges, and the subtypes of a type are
what can be reached from it over subtype edges. Both are searches of the type graph. An edge may
lead to a number that the graph does not have; this is a fault when the search takes that number
up.

## Main definitions

* `TypeGraph.isAncestor` : whether a type can be reached upwards.
* `TypeGraph.subtypeClosure` : the types that can be reached downwards.
* `TypeGraph.subtypeNames` : their names in order.
-/

namespace NominalSubtyping

namespace TypeGraph

/-- The type graph as a graph to search, along the given edges. -/
def along (graph : TypeGraph) (edges : TypeNode → List NodeId) : Search.Graph NodeId where
  neighbours id := graph.nodes[id]?.map edges
  items := List.range graph.size
  mem_items id _ h := by
    obtain ⟨_, found, _⟩ := Option.map_eq_some_iff.1 h
    exact List.mem_range.2 (Array.getElem?_eq_some_iff.1 found).1

/-- Whether `sup` is `sub` itself or can be reached from `sub` over supertype edges. -/
def isAncestor (graph : TypeGraph) (sub sup : NodeId) : Except Fault Bool :=
  if sub = sup then
    .ok true
  else
    match Search.exploreFrom (graph.along TypeNode.supertypes) .stack (· = sup) sub with
    | .found => .ok true
    | .exhausted _ => .ok false
    | .stuck id => .error (.noSuchNode graph.size id)

/-- The types that can be reached from `id` over subtype edges, `id` included, each once. -/
def subtypeClosure (graph : TypeGraph) (id : NodeId) : Except Fault (List NodeId) :=
  match Search.exploreFrom (graph.along TypeNode.subtypes) .stack (fun _ => false) id with
  | .exhausted reached => .ok reached
  | .stuck id => .error (.noSuchNode graph.size id)
  | .found => .ok []

/-- The names of `name` and everything below it in ascending order; none if `name` has no node. -/
def subtypeNames (graph : TypeGraph) (name : String) : Except Fault (List String) :=
  match graph.lookup name with
  | none => .ok []
  | some id => do
    let closure ← graph.subtypeClosure id
    let nodes ← closure.mapM graph.node
    return (nodes.map TypeNode.name).mergeSort

end TypeGraph

end NominalSubtyping
