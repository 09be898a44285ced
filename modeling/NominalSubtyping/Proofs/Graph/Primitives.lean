import NominalSubtyping.Proofs.Graph.Reach

/-!
# The graph of the primitive types

The graph with which every session begins is made by three loops: one makes the nodes, one records
the widenings, one marks the primitive types complete. Each round of a loop *adds* some edges and
some complete nodes to a well-formed graph, and a loop adds what its rounds add. So the graph is
well-formed, its edges are the widenings, and its complete nodes are the primitive types.

## Main definitions

* `Primitive.Widens` : one widening between two names.
* `TypeGraph.Adds` : the edges and complete nodes by which one graph exceeds another.

## Main results

* `TypeGraph.adds_primitives` : what the graph of the primitive types consists of.
-/

open Relation (ReflTransGen)

namespace NominalSubtyping

/-- A value of the type named `sub` may be used as a value of the type named `sup`, both being
primitive, by one widening. -/
def Primitive.Widens (sub sup : String) : Prop :=
  ∃ widening ∈ widenings, widening.1.name = sub ∧ widening.2.name = sup

instance : DecidableRel Primitive.Widens := fun sub sup =>
  inferInstanceAs (Decidable (∃ widening ∈ Primitive.widenings,
    widening.1.name = sub ∧ widening.2.name = sup))

theorem isPrimitive_eq_true_iff {name : String} :
    isPrimitive name = true ↔ ∃ type ∈ Primitive.all, type.name = name := by
  simp [isPrimitive]

theorem Primitive.isPrimitive_name (type : Primitive) : isPrimitive type.name = true :=
  isPrimitive_eq_true_iff.2 ⟨type, mem_all type, rfl⟩

theorem Primitive.Widens.isPrimitive {sub sup : String} (h : Primitive.Widens sub sup) :
    isPrimitive sub = true ∧ isPrimitive sup = true := by
  obtain ⟨widening, -, rfl, rfl⟩ := h
  exact ⟨isPrimitive_name _, isPrimitive_name _⟩

/-- What can be widened to a primitive type is primitive. -/
theorem Primitive.isPrimitive_of_widens {sub sup : String} (h : ReflTransGen Widens sub sup)
    (hsup : isPrimitive sup = true) : isPrimitive sub = true := by
  rcases ReflTransGen.cases_head h with rfl | ⟨_, hw, -⟩
  · exact hsup
  · exact hw.isPrimitive.1

namespace TypeGraph

/-- The graph `later` has the edges `edge` and the complete nodes `mark` in addition to those of
`graph`. -/
structure Adds (edge : String → String → Prop) (mark : String → Prop) (graph later : TypeGraph) :
    Prop where
  wellFormed : later.WellFormed
  hasEdge_iff : ∀ {sup sub}, later.HasEdge sup sub ↔ graph.HasEdge sup sub ∨ edge sup sub
  isComplete_iff : ∀ {name}, later.isComplete name = true ↔ graph.isComplete name = true ∨ mark name

/-- A loop adds what its rounds add. -/
theorem forM_adds {α : Type} {step : α → GraphM PUnit} {edge : α → String → String → Prop}
    {mark : α → String → Prop}
    (hstep : ∀ x {graph : TypeGraph}, graph.WellFormed →
      ∃ later, step x graph = .ok ⟨⟩ later ∧ Adds (edge x) (mark x) graph later)
    (xs : List α) : ∀ {graph : TypeGraph}, graph.WellFormed →
      ∃ later, xs.forM step graph = .ok ⟨⟩ later ∧
        Adds (fun sup sub => ∃ x ∈ xs, edge x sup sub) (fun name => ∃ x ∈ xs, mark x name)
          graph later := by
  induction xs with
  | nil => exact fun {graph} h => ⟨graph, rfl, h, by simp, by simp⟩
  | cons x xs ih =>
    intro graph h
    obtain ⟨middle, hfirst, hadds⟩ := hstep x h
    obtain ⟨later, hrest, hadds'⟩ := ih hadds.wellFormed
    refine ⟨later, (bind_eq_of_ok hfirst).trans hrest, hadds'.wellFormed, ?_, ?_⟩
    · intro sup sub
      rw [hadds'.hasEdge_iff, hadds.hasEdge_iff, or_assoc]
      simp
    · intro name
      rw [hadds'.isComplete_iff, hadds.isComplete_iff, or_assoc]
      simp

/-- Making a node adds no edge and no complete node. -/
theorem adds_intern (type : Primitive) {graph : TypeGraph} (h : graph.WellFormed) :
    ∃ later, (discard (intern type.name) : GraphM PUnit) graph = .ok ⟨⟩ later ∧
      Adds (fun _ _ => False) (fun _ => False) graph later := by
  obtain ⟨id, -, hintern⟩ := graph.intern_eq type.name
  refine ⟨graph.withNode type.name, discard_eq_of_ok hintern, h.withNode _, ?_, ?_⟩
  · intro sup sub
    rw [hasEdge_withNode h, or_false]
  · intro name
    rw [isComplete_withNode h, or_false]

/-- Recording a widening adds it, and no complete node. -/
theorem adds_link (widening : Primitive × Primitive) {graph : TypeGraph} (h : graph.WellFormed) :
    ∃ later, (do
        let sub ← intern widening.1.name
        let sup ← intern widening.2.name
        link sup sub : GraphM PUnit) graph = .ok ⟨⟩ later ∧
      Adds (fun sup sub => widening.1.name = sub ∧ widening.2.name = sup) (fun _ => False)
        graph later := by
  obtain ⟨subId, hsub, hintern⟩ := graph.intern_eq widening.1.name
  have hnode := h.withNode widening.1.name
  obtain ⟨supId, hsup, hintern'⟩ := (graph.withNode widening.1.name).intern_eq widening.2.name
  have hnodes := hnode.withNode widening.2.name
  have hsub' := (extends_withNode _ widening.2.name).lookup hsub
  have hlink := link_eq hnodes (hnodes.lt_size hsup) (hnodes.lt_size hsub')
  refine ⟨_, ?_, hnodes.withEdge (hnodes.lt_size hsup) (hnodes.lt_size hsub'), ?_, ?_⟩
  · exact (bind_eq_of_ok hintern).trans ((bind_eq_of_ok hintern').trans hlink)
  · intro sup sub
    rw [hasEdge_withEdge hnodes hsup hsub', hasEdge_withNode hnode, hasEdge_withNode h,
      @eq_comm _ sup, @eq_comm _ sub, and_comm (a := _ = sup)]
  · intro name
    rw [isComplete_withEdge, isComplete_withNode hnode, isComplete_withNode h, or_false]

/-- Marking a type complete adds one complete node, and no edge. -/
theorem adds_markComplete (type : Primitive) {graph : TypeGraph} (h : graph.WellFormed) :
    ∃ later, (do markComplete (← intern type.name) : GraphM PUnit) graph = .ok ⟨⟩ later ∧
      Adds (fun _ _ => False) (fun name => type.name = name) graph later := by
  obtain ⟨id, hid, hintern⟩ := graph.intern_eq type.name
  have hnode := h.withNode type.name
  refine ⟨_, (bind_eq_of_ok hintern).trans (markComplete_eq (hnode.lt_size hid)),
    hnode.withComplete id, ?_, ?_⟩
  · intro sup sub
    rw [hasEdge_withComplete, hasEdge_withNode h, or_false]
  · intro name
    rw [isComplete_withComplete hnode hid, isComplete_withNode h, @eq_comm _ name]

theorem not_hasEdge_empty {sup sub : String} : ¬ HasEdge {} sup sub := by
  rintro ⟨supId, subId, hsup, -, -⟩
  rw [lookup, Std.TreeMap.getElem?_emptyc] at hsup
  cases hsup

theorem isComplete_empty {name : String} : isComplete {} name = false := by
  rw [Bool.eq_false_iff, ne_eq, isComplete_eq_true_iff]
  rintro ⟨id, hid, -⟩
  rw [lookup, Std.TreeMap.getElem?_emptyc] at hid
  cases hid

/-- The edges of the graph of the primitive types are the widenings, and the complete nodes are the
primitive types. -/
theorem adds_primitives :
    Adds (fun sup sub => Primitive.Widens sub sup) (fun name => isPrimitive name = true) {}
      primitives := by
  obtain ⟨nodes, hnodes, hadds⟩ := forM_adds adds_intern Primitive.all wellFormed_empty
  obtain ⟨linked, hlinked, hadds'⟩ := forM_adds adds_link Primitive.widenings hadds.wellFormed
  obtain ⟨marked, hmarked, hadds''⟩ := forM_adds adds_markComplete Primitive.all hadds'.wellFormed
  have hprimitives : primitives = marked :=
    finalState_of_ok ((bind_eq_of_ok hnodes).trans ((bind_eq_of_ok hlinked).trans hmarked))
  rw [hprimitives]
  refine ⟨hadds''.wellFormed, ?_, ?_⟩
  · intro sup sub
    rw [hadds''.hasEdge_iff, hadds'.hasEdge_iff, hadds.hasEdge_iff, Primitive.Widens]
    simp
  · intro name
    rw [hadds''.isComplete_iff, hadds'.isComplete_iff, hadds.isComplete_iff,
      isPrimitive_eq_true_iff]
    simp

end TypeGraph

end NominalSubtyping
