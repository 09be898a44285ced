import NominalSubtyping.Graph.Reach
import NominalSubtyping.Proofs.Graph.WellFormed
import NominalSubtyping.Proofs.Search

/-!
# Reachability in a well-formed type graph

In a well-formed type graph both searches are exact and never meet a number that the graph does not
have. The search over supertype edges tells whether one name *lies below* another; the search over
subtype edges lists the names that lie below one.

## Main definitions

* `TypeGraph.LiesBelow` : a name is another one, or a chain of edges leads up to it.

## Main results

* `TypeGraph.isAncestor_reach`, `TypeGraph.subtypeClosure_reach` : both searches are exact.
* `TypeGraph.isAncestor_eq` : the upward search decides whether a name lies below another.
* `TypeGraph.subtypeClosure_eq` : the downward search lists the names that lie below a name.
* `TypeGraph.subtypeNames_of_closure`, `TypeGraph.mem_subtypeNames` : so does the listing by name.
-/

open Relation (ReflTransGen)

namespace NominalSubtyping.TypeGraph

variable {graph : TypeGraph}

/-- A chain of edges leads from the type named `sub` up to the type named `sup`. -/
def LiesBelow (graph : TypeGraph) : (sub sup : String) → Prop :=
  ReflTransGen fun sub sup => graph.HasEdge sup sub

theorem Extends.liesBelow {later : TypeGraph} (h : graph.Extends later) {sub sup : String}
    (hb : graph.LiesBelow sub sup) : later.LiesBelow sub sup :=
  ReflTransGen.mono (fun _ _ he => h.hasEdge he) _ _ hb

/-- Whatever lies below a name that has a node has a node. -/
theorem LiesBelow.exists_lookup {sub sup : String} {id : NodeId} (h : graph.LiesBelow sub sup)
    (hsup : graph.lookup sup = some id) : ∃ subId, graph.lookup sub = some subId := by
  rcases ReflTransGen.cases_head h with rfl | ⟨_, ⟨_, subId, -, hsub, -⟩, -⟩
  · exact ⟨id, hsup⟩
  · exact ⟨subId, hsub⟩

theorem edge_along_supertypes {id other : NodeId} :
    (graph.along TypeNode.supertypes).Edge id other ↔ other ∈ graph.supertypesOf id := by
  simp only [Search.Graph.Edge, along, supertypesOf]
  cases graph.nodes[id]? <;> simp

theorem edge_along_subtypes {id other : NodeId} :
    (graph.along TypeNode.subtypes).Edge id other ↔ other ∈ graph.subtypesOf id := by
  simp only [Search.Graph.Edge, along, subtypesOf]
  cases graph.nodes[id]? <;> simp

theorem along_neighbours_ne_none {edges : TypeNode → List NodeId} {id : NodeId}
    (h : id < graph.size) : (graph.along edges).neighbours id ≠ none := by
  intro hn
  rw [along, Option.map_eq_none_iff, Array.getElem?_eq_none_iff] at hn
  exact Nat.not_le.2 h hn

namespace WellFormed

variable (h : graph.WellFormed)

include h

theorem edge_along_swap {id other : NodeId} :
    (graph.along TypeNode.subtypes).Edge id other ↔
      (graph.along TypeNode.supertypes).Edge other id := by
  rw [edge_along_subtypes, edge_along_supertypes, h.symmetric]

/-- Whatever can be reached downwards can be reached back upwards. -/
theorem reach_subtypes_iff {id other : NodeId} :
    ReflTransGen (graph.along TypeNode.subtypes).Edge id other ↔
      ReflTransGen (graph.along TypeNode.supertypes).Edge other id := by
  have hswap : Function.swap (graph.along TypeNode.subtypes).Edge =
      (graph.along TypeNode.supertypes).Edge := by
    funext sub sup
    exact propext h.edge_along_swap
  rw [← hswap, Relation.reflTransGen_swap]

theorem lt_size_of_reach_supertypes {id other : NodeId} (hid : id < graph.size)
    (hr : ReflTransGen (graph.along TypeNode.supertypes).Edge id other) : other < graph.size := by
  induction hr with
  | refl => exact hid
  | tail _ hedge _ =>
    exact (h.lt_size_of_mem ((h.symmetric _ _).2 (edge_along_supertypes.1 hedge))).1

theorem lt_size_of_reach_subtypes {id other : NodeId} (hid : id < graph.size)
    (hr : ReflTransGen (graph.along TypeNode.subtypes).Edge id other) : other < graph.size := by
  induction hr with
  | refl => exact hid
  | tail _ hedge _ => exact (h.lt_size_of_mem (edge_along_subtypes.1 hedge)).2

/-- Chains of edges between numbers are chains of edges between names. -/
theorem reach_supertypes_iff {sub sup : String} {subId supId : NodeId}
    (hsub : graph.lookup sub = some subId) (hsup : graph.lookup sup = some supId) :
    ReflTransGen (graph.along TypeNode.supertypes).Edge subId supId ↔ graph.LiesBelow sub sup := by
  constructor
  · intro hr
    induction hr generalizing sup with
    | refl =>
      rw [h.lookup_inj hsub hsup]
      exact ReflTransGen.refl
    | tail _ hedge ih =>
      have hmem := (h.symmetric _ _).2 (edge_along_supertypes.1 hedge)
      obtain ⟨name, hname⟩ := exists_name (h.lt_size_of_mem hmem).2
      have hid := (h.lookup_iff name _).2 hname
      exact (ih hid).tail ⟨_, _, hsup, hid, hmem⟩
  · intro hb
    induction hb generalizing supId with
    | refl =>
      rw [Option.some.inj (hsub.symm.trans hsup)]
    | tail _ hedge ih =>
      obtain ⟨i, j, hi, hj, hmem⟩ := hedge
      obtain rfl := Option.some.inj (hi.symm.trans hsup)
      exact (ih hj).tail (edge_along_supertypes.2 ((h.symmetric _ _).1 hmem))

end WellFormed

/-- The upward search decides whether a node can be reached over supertype edges. -/
theorem isAncestor_reach (h : graph.WellFormed) {sub : NodeId} (hsub : sub < graph.size)
    (sup : NodeId) :
    ∃ below, graph.isAncestor sub sup = .ok below ∧
      (below = true ↔ ReflTransGen (graph.along TypeNode.supertypes).Edge sub sup) := by
  rw [isAncestor]
  by_cases heq : sub = sup
  · rw [if_pos heq, heq]
    exact ⟨true, rfl, fun _ => ReflTransGen.refl, fun _ => rfl⟩
  · rw [if_neg heq]
    have hexact := Search.exploreFrom_exact (graph.along TypeNode.supertypes) .stack
      (fun id => decide (id = sup)) sub
    split
    · rename_i hfound
      rw [hfound] at hexact
      obtain ⟨x, y, hx, hedge, hgoal⟩ := hexact
      refine ⟨true, rfl, fun _ => ?_, fun _ => rfl⟩
      rw [← of_decide_eq_true hgoal]
      exact hx.tail hedge
    · rename_i reached hdone
      rw [hdone] at hexact
      refine ⟨false, rfl, ⟨fun hf => (by cases hf), fun hr => ?_⟩⟩
      rcases ReflTransGen.cases_tail hr with hr | ⟨x, hx, hedge⟩
      · exact absurd hr.symm heq
      · exact absurd rfl (of_decide_eq_false (hexact.2.2 x sup hx hedge))
    · rename_i id hstuck
      rw [hstuck] at hexact
      have hlt := h.lt_size_of_reach_supertypes hsub hexact.1
      exact absurd hexact.2 (along_neighbours_ne_none hlt)

/-- The upward search decides whether one name lies below another. -/
theorem isAncestor_eq (h : graph.WellFormed) {sub sup : String} {subId supId : NodeId}
    (hsub : graph.lookup sub = some subId) (hsup : graph.lookup sup = some supId) :
    ∃ below, graph.isAncestor subId supId = .ok below ∧
      (below = true ↔ graph.LiesBelow sub sup) := by
  rw [← h.reach_supertypes_iff hsub hsup]
  exact isAncestor_reach h (h.lt_size hsub) supId

/-- The downward search lists what can be reached over subtype edges, each node once. -/
theorem subtypeClosure_reach (h : graph.WellFormed) {id : NodeId} (hid : id < graph.size) :
    ∃ closure, graph.subtypeClosure id = .ok closure ∧ closure.Nodup ∧
      ∀ other, other ∈ closure ↔ ReflTransGen (graph.along TypeNode.subtypes).Edge id other := by
  rw [subtypeClosure]
  have hexact := Search.exploreFrom_exact (graph.along TypeNode.subtypes) .stack
    (fun _ => false) id
  split
  · rename_i reached hdone
    rw [hdone] at hexact
    exact ⟨reached, rfl, hexact.1, hexact.2.1⟩
  · rename_i other hstuck
    rw [hstuck] at hexact
    have hlt := h.lt_size_of_reach_subtypes hid hexact.1
    exact absurd hexact.2 (along_neighbours_ne_none hlt)
  · rename_i hfound
    rw [hfound] at hexact
    obtain ⟨x, y, -, -, hgoal⟩ := hexact
    cases hgoal

theorem nodup_of_subtypeClosure (h : graph.WellFormed) {id : NodeId} (hid : id < graph.size)
    {closure : List NodeId} (hclosure : graph.subtypeClosure id = .ok closure) :
    closure.Nodup ∧ ∀ other ∈ closure, other < graph.size := by
  obtain ⟨found, hfound, hnodup, hmem⟩ := subtypeClosure_reach h hid
  obtain rfl := Except.ok.inj (hclosure.symm.trans hfound)
  exact ⟨hnodup, fun other hother => h.lt_size_of_reach_subtypes hid ((hmem other).1 hother)⟩

/-- The downward search lists the numbers of the names that lie below a name, each once. -/
theorem subtypeClosure_eq (h : graph.WellFormed) {name : String} {id : NodeId}
    (hid : graph.lookup name = some id) :
    ∃ closure, graph.subtypeClosure id = .ok closure ∧ closure.Nodup ∧
      (∀ other ∈ closure, other < graph.size) ∧
      ∀ sub subId, graph.lookup sub = some subId →
        (subId ∈ closure ↔ graph.LiesBelow sub name) := by
  obtain ⟨closure, hclosure, hnodup, hmem⟩ := subtypeClosure_reach h (h.lt_size hid)
  refine ⟨closure, hclosure, hnodup, (nodup_of_subtypeClosure h (h.lt_size hid) hclosure).2,
    fun sub subId hsub => ?_⟩
  rw [hmem, h.reach_subtypes_iff, h.reach_supertypes_iff hsub hid]

/-- Two downward searches tell whether something lies below two names. -/
theorem subtypeClosure_meet_eq (h : graph.WellFormed) {left right : String}
    {leftId rightId : NodeId} (hleft : graph.lookup left = some leftId)
    (hright : graph.lookup right = some rightId) :
    ∃ leftBelow rightBelow, graph.subtypeClosure leftId = .ok leftBelow ∧
      graph.subtypeClosure rightId = .ok rightBelow ∧
      ((∃ id ∈ leftBelow, id ∈ rightBelow) ↔
        ∃ type, graph.LiesBelow type left ∧ graph.LiesBelow type right) := by
  obtain ⟨leftBelow, hclosure, -, hrange, hmem⟩ := subtypeClosure_eq h hleft
  obtain ⟨rightBelow, hclosure', -, -, hmem'⟩ := subtypeClosure_eq h hright
  refine ⟨leftBelow, rightBelow, hclosure, hclosure', ?_⟩
  constructor
  · rintro ⟨id, hid, hid'⟩
    obtain ⟨type, htype⟩ := WellFormed.exists_name (hrange id hid)
    have hlookup := (h.lookup_iff type id).2 htype
    exact ⟨type, (hmem type id hlookup).1 hid, (hmem' type id hlookup).1 hid'⟩
  · rintro ⟨type, hb, hb'⟩
    obtain ⟨id, hlookup⟩ := hb.exists_lookup hleft
    exact ⟨id, (hmem type id hlookup).2 hb, (hmem' type id hlookup).2 hb'⟩

theorem nameAt_of_node_eq {id : NodeId} {node : TypeNode} (h : graph.node id = .ok node) :
    graph.nameAt id = node.name := by
  rw [TypeGraph.node] at h
  rw [nameAt, nameOf?]
  cases hid : graph.nodes[id]? with
  | none =>
    rw [hid] at h
    cases h
  | some found =>
    rw [hid] at h
    rw [← Except.ok.inj h]
    rfl

/-- Numbers of the graph have nodes with their names. -/
theorem mapM_node_eq {ids : List NodeId} (h : ∀ id ∈ ids, id < graph.size) :
    ∃ nodes, ids.mapM graph.node = .ok nodes ∧
      nodes.map TypeNode.name = ids.map graph.nameAt := by
  induction ids with
  | nil => exact ⟨[], rfl, rfl⟩
  | cons id ids ih =>
    obtain ⟨node, hnode, -⟩ := node_eq_ok (h id List.mem_cons_self)
    obtain ⟨nodes, hnodes, hnames⟩ := ih fun other hother => h other (List.mem_cons_of_mem _ hother)
    refine ⟨node :: nodes, ?_, ?_⟩
    · rw [List.mapM_cons, hnode, hnodes]
      rfl
    · rw [List.map_cons, List.map_cons, hnames, nameAt_of_node_eq hnode]

/-- The names below a name are those of what the downward search lists, in order. -/
theorem subtypeNames_of_closure (h : graph.WellFormed) {name : String} {id : NodeId}
    (hid : graph.lookup name = some id) {closure : List NodeId}
    (hclosure : graph.subtypeClosure id = .ok closure) :
    graph.subtypeNames name = .ok (closure.map graph.nameAt).mergeSort := by
  obtain ⟨nodes, hnodes, hnames⟩ :=
    mapM_node_eq (nodup_of_subtypeClosure h (h.lt_size hid) hclosure).2
  rw [subtypeNames, hid]
  dsimp only
  rw [hclosure]
  dsimp only [bind, Except.bind]
  rw [hnodes, ← hnames]
  rfl

/-- The names below a name are listed without a fault. -/
theorem subtypeNames_eq (h : graph.WellFormed) (name : String) :
    ∃ names, graph.subtypeNames name = .ok names := by
  cases hid : graph.lookup name with
  | none =>
    rw [subtypeNames, hid]
    exact ⟨[], rfl⟩
  | some id =>
    obtain ⟨closure, hclosure, -⟩ := subtypeClosure_eq h hid
    exact ⟨_, subtypeNames_of_closure h hid hclosure⟩

/-- The listing by name holds the names that lie below a name. -/
theorem mem_subtypeNames (h : graph.WellFormed) {name : String} {id : NodeId}
    (hid : graph.lookup name = some id) {names : List String}
    (hnames : graph.subtypeNames name = .ok names) {sub : String} :
    sub ∈ names ↔ graph.LiesBelow sub name := by
  obtain ⟨closure, hclosure, -, hrange, hmem⟩ := subtypeClosure_eq h hid
  obtain rfl := Except.ok.inj (hnames.symm.trans (subtypeNames_of_closure h hid hclosure))
  rw [List.mem_mergeSort, List.mem_map]
  constructor
  · rintro ⟨subId, hsubId, rfl⟩
    exact (hmem _ subId (h.lookup_nameAt (hrange subId hsubId))).1 hsubId
  · intro hb
    obtain ⟨subId, hsub⟩ := hb.exists_lookup hid
    exact ⟨subId, (hmem sub subId hsub).2 hb, h.lookup_inj (h.lookup_nameAt (h.lt_size hsub)) hsub⟩

end NominalSubtyping.TypeGraph
