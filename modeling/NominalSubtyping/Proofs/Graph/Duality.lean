import Mathlib.Data.List.Sort
import Mathlib.Data.String.Basic
import NominalSubtyping.Proofs.Graph.Reach

/-!
# The two searches of a type graph

One search goes up over supertype edges and stops as soon as it has met what it is looking for; the
other goes down over subtype edges and lists whatever it meets. They read different lists of
different nodes. In a well-formed graph, which may have cycles, each of them is exact, and they are
*dual*: the upward search from one node finds another if and only if the downward search from there
lists the first.

## Main results

* `TypeGraph.pairwise_subtypeNames` : names are listed in strictly ascending order.
* `TypeGraph.searches_dual` : both searches are exact and dual.
-/

open Relation (ReflTransGen)

namespace NominalSubtyping.TypeGraph

variable {graph : TypeGraph}

/-- The names of what the downward search lists are sorted into strictly ascending order. -/
theorem pairwise_subtypeNames (h : graph.WellFormed) {id : NodeId} (hid : id < graph.size)
    {closure : List NodeId} (hclosure : graph.subtypeClosure id = .ok closure) :
    (closure.map graph.nameAt).mergeSort.Pairwise (· < ·) := by
  obtain ⟨hnodup, hrange⟩ := nodup_of_subtypeClosure h hid hclosure
  have hdistinct : (closure.map graph.nameAt).Nodup :=
    hnodup.map_on fun sub hsub other hother heq =>
      h.nameAt_inj (hrange sub hsub) (hrange other hother) heq
  exact (List.sortedLE_mergeSort.sortedLT_of_nodup hdistinct.mergeSort).pairwise

/-- No other names are among them, and none is left out. -/
theorem mem_names_of_closure (h : graph.WellFormed) {id : NodeId} (hid : id < graph.size)
    {closure : List NodeId} (hclosure : graph.subtypeClosure id = .ok closure) {name : String} :
    name ∈ (closure.map graph.nameAt).mergeSort ↔
      ∃ other ∈ closure, graph.nameOf? other = some name := by
  obtain ⟨-, hrange⟩ := nodup_of_subtypeClosure h hid hclosure
  rw [List.mem_mergeSort, List.mem_map]
  refine exists_congr fun other => and_congr_right fun hother => ?_
  rw [(h.lookup_iff _ _).1 (h.lookup_nameAt (hrange other hother)), Option.some.injEq]

/-- From any node of a well-formed graph the upward search tells whether another node can be reached
over supertype edges, and the downward search lists what can be reached over subtype edges, each
node once; so the upward search finds a node if and only if the downward search from there lists
where it began. By name, the nodes of the downward search are listed in strictly ascending order; a
name without a node has no list. -/
theorem searches_dual (h : graph.WellFormed) {sub sup : NodeId} (hsub : sub < graph.size)
    (hsup : sup < graph.size) :
    ∃ found closure, graph.isAncestor sub sup = .ok found ∧ graph.subtypeClosure sup = .ok closure ∧
      (found = true ↔ ReflTransGen (fun id next => next ∈ graph.supertypesOf id) sub sup) ∧
      closure.Nodup ∧
      (∀ id, id ∈ closure ↔ ReflTransGen (fun id next => next ∈ graph.subtypesOf id) sup id) ∧
      (found = true ↔ sub ∈ closure) ∧
      (∀ name, graph.lookup name = some sup → ∃ names, graph.subtypeNames name = .ok names ∧
        names.Pairwise (· < ·) ∧
        ∀ other, other ∈ names ↔ ∃ id ∈ closure, graph.nameOf? id = some other) ∧
      ∀ name, graph.lookup name = none → graph.subtypeNames name = .ok [] := by
  have hup : (graph.along TypeNode.supertypes).Edge = fun id next => next ∈ graph.supertypesOf id :=
    funext fun _ => funext fun _ => propext edge_along_supertypes
  have hdown : (graph.along TypeNode.subtypes).Edge = fun id next => next ∈ graph.subtypesOf id :=
    funext fun _ => funext fun _ => propext edge_along_subtypes
  obtain ⟨found, hfound, hiff⟩ := isAncestor_reach h hsub sup
  obtain ⟨closure, hclosure, hnodup, hmem⟩ := subtypeClosure_reach h hsup
  refine ⟨found, closure, hfound, hclosure, hup ▸ hiff, hnodup, hdown ▸ hmem, ?_, ?_, ?_⟩
  · rw [hiff, hmem, h.reach_subtypes_iff]
  · intro name hname
    exact ⟨_, subtypeNames_of_closure h hname hclosure, pairwise_subtypeNames h hsup hclosure,
      fun _ => mem_names_of_closure h hsup hclosure⟩
  · intro name hname
    rw [subtypeNames, hname]

/-- Two types that are direct subtypes of each other, one of them of itself too. -/
theorem searches_dual_cycle :
    let nodes := (TypeGraph.withNode {} "B").withNode "A"
    let graph := ((nodes.withEdge 0 1).withEdge 1 0).withEdge 0 0
    graph.WellFormed ∧ 0 < graph.size ∧ 1 < graph.size ∧
      graph.isAncestor 0 1 = .ok true ∧ ∃ closure names,
        graph.subtypeClosure 1 = .ok closure ∧ 0 ∈ closure ∧
        graph.subtypeNames "A" = .ok names ∧ names.Pairwise (· < ·) ∧ "B" ∈ names := by
  intro nodes graph
  have hnodes : nodes.WellFormed := (wellFormed_empty.withNode "B").withNode "A"
  have hsize : nodes.size = 2 := by decide +kernel
  have hgraph : graph.WellFormed := by
    refine ((hnodes.withEdge ?_ ?_).withEdge ?_ ?_).withEdge ?_ ?_
    all_goals simp [hsize]
  have hzero : 0 < graph.size := by simp [graph, hsize]
  have hone : 1 < graph.size := by simp [graph, hsize]
  obtain ⟨found, closure, hfound, hclosure, hup, -, -, hdual, hnames, -⟩ :=
    searches_dual hgraph hzero hone
  obtain rfl : found = true := hup.2 (ReflTransGen.single (by decide +kernel))
  obtain ⟨names, hlisted, hsorted, hmem⟩ := hnames "A" (by decide +kernel)
  refine ⟨hgraph, hzero, hone, hfound, closure, names, hclosure, hdual.1 rfl, hlisted, hsorted, ?_⟩
  exact (hmem "B").2 ⟨0, hdual.1 rfl, by decide +kernel⟩

end NominalSubtyping.TypeGraph
