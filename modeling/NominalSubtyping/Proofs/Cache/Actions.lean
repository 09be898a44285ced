import NominalSubtyping.Cache.Basic
import NominalSubtyping.Proofs.Graph.Primitives

/-!
# Actions on a cache

A cache grows like its graph; the node that is made for a name is recorded in the journal. This
module says which cache each of the basic actions leads to.

## Main definitions

* `Cache.withNode`, `Cache.withEdge`, `Cache.withComplete` : the cache with one more node, edge or
  complete node.
* `Cache.withEvent`, `Cache.withQuestion`, `Cache.withFailure` : the cache with one more event, one
  more question, one more question put in vain.

* `Cache.Grows` : one cache has grown out of another.

## Main results

* `Cache.intern_eq` : the node of a name is looked up or made.
-/

namespace NominalSubtyping.Cache

variable {α : Type} {cache : Cache}

theorem onGraph_eq_of_ok {action : GraphM α} {value : α} {graph : TypeGraph}
    (h : action cache.graph = .ok value graph) :
    onGraph action cache = .ok value { cache with graph } := by
  obtain ⟨_, _, _, _, _, _⟩ := cache
  simp only [onGraph, focus] at h ⊢
  rw [h]

theorem inspect_eq_of_ok (read : TypeGraph → Except Fault α) {value : α}
    (h : read cache.graph = .ok value) : inspect read cache = .ok value cache := by
  change (MonadExcept.ofExcept (read cache.graph) : CacheM α) cache = _
  rw [h]
  rfl

theorem graph_new (limits : Limits) : (new limits).graph = .primitives := by
  rw [new]

theorem wellFormed_new (limits : Limits) : (new limits).graph.WellFormed := by
  rw [graph_new]
  exact TypeGraph.adds_primitives.wellFormed

/-- The cache with a node for `name`. -/
def withNode (cache : Cache) (name : String) : Cache :=
  match cache.graph.lookup name with
  | some _ => cache
  | none =>
    { cache with
      graph := cache.graph.add name
      journal := .created name cache.graph.size :: cache.journal }

/-- The cache with both halves of an edge. -/
def withEdge (cache : Cache) (sup sub : NodeId) : Cache :=
  { cache with graph := cache.graph.withEdge sup sub }

/-- The cache with one node marked complete. -/
def withComplete (cache : Cache) (id : NodeId) : Cache :=
  { cache with graph := cache.graph.withComplete id }

/-- The cache with one more event in its journal. -/
def withEvent (cache : Cache) (event : Event) : Cache :=
  { cache with journal := event :: cache.journal }

/-- The cache with one more question to the source. -/
def withQuestion (cache : Cache) (name : String) : Cache :=
  { cache with lookups := cache.lookups + 1, asked := name :: cache.asked }

/-- The cache with one more question that was put in vain. -/
def withFailure (cache : Cache) (event : Event) : Cache :=
  { cache with failures := cache.failures + 1, journal := event :: cache.journal }

@[simp] theorem graph_withNode (cache : Cache) (name : String) :
    (cache.withNode name).graph = cache.graph.withNode name := by
  rw [withNode, TypeGraph.withNode]
  cases cache.graph.lookup name <;> rfl

@[simp] theorem graph_withEdge (cache : Cache) (sup sub : NodeId) :
    (cache.withEdge sup sub).graph = cache.graph.withEdge sup sub :=
  rfl

@[simp] theorem graph_withComplete (cache : Cache) (id : NodeId) :
    (cache.withComplete id).graph = cache.graph.withComplete id :=
  rfl

@[simp] theorem graph_withEvent (cache : Cache) (event : Event) :
    (cache.withEvent event).graph = cache.graph :=
  rfl

@[simp] theorem graph_withQuestion (cache : Cache) (name : String) :
    (cache.withQuestion name).graph = cache.graph :=
  rfl

@[simp] theorem graph_withFailure (cache : Cache) (event : Event) :
    (cache.withFailure event).graph = cache.graph :=
  rfl

theorem wellFormed_withNode (h : cache.graph.WellFormed) (name : String) :
    (cache.withNode name).graph.WellFormed := by
  rw [graph_withNode]
  exact h.withNode name

theorem limits_withNode (cache : Cache) (name : String) :
    (cache.withNode name).limits = cache.limits := by
  rw [withNode]
  split <;> rfl

theorem journal_withNode (cache : Cache) (name : String) :
    cache.journal <:+ (cache.withNode name).journal := by
  rw [withNode]
  split
  · exact List.suffix_refl _
  · exact List.suffix_cons _ _

theorem asked_withNode (cache : Cache) (name : String) :
    (cache.withNode name).asked = cache.asked := by
  rw [withNode]
  split <;> rfl

/-- A complete name has a node. -/
theorem withNode_of_isComplete {name : String} (h : cache.graph.isComplete name = true) :
    cache.withNode name = cache := by
  obtain ⟨id, hid, -⟩ := TypeGraph.isComplete_eq_true_iff.1 h
  rw [withNode, hid]

theorem intern_eq (cache : Cache) (name : String) :
    ∃ id, (cache.withNode name).graph.lookup name = some id ∧
      intern name cache = .ok id (cache.withNode name) := by
  rw [withNode]
  cases h : cache.graph.lookup name with
  | some id =>
    refine ⟨id, h, ?_⟩
    change (match cache.graph.lookup name with
      | some id => pure id
      | none => _ : CacheM NodeId) cache = _
    rw [h]
    rfl
  | none =>
    refine ⟨cache.graph.size, ?_, ?_⟩
    · rw [TypeGraph.lookup_add, if_pos rfl]
    · change (match cache.graph.lookup name with
        | some id => pure id
        | none => onGraph (TypeGraph.intern name) >>= fun id =>
            record (.created name id) >>= fun _ => pure id : CacheM NodeId) cache = _
      have hadd : TypeGraph.intern name cache.graph =
          .ok cache.graph.size (cache.graph.add name) := by
        rw [TypeGraph.intern, h]
      rw [h]
      exact bind_eq_of_ok (onGraph_eq_of_ok hadd)

theorem record_eq (event : Event) (cache : Cache) :
    record event cache = .ok ⟨⟩ (cache.withEvent event) :=
  rfl

theorem ask_eq (source : Source) (name : String) (cache : Cache) :
    ask source name cache = .ok (source cache.asked name) (cache.withQuestion name) :=
  rfl

/-! ### Growth -/

/-- The cache `later` has grown out of `cache`: nothing that was learned or recorded is lost. -/
structure Grows (cache later : Cache) : Prop where
  extend : cache.graph.Extends later.graph
  limits_eq : later.limits = cache.limits
  asked : cache.asked <:+ later.asked
  journal : cache.journal <:+ later.journal

namespace Grows

theorem refl (cache : Cache) : cache.Grows cache :=
  ⟨.refl _, rfl, List.suffix_refl _, List.suffix_refl _⟩

theorem trans {middle later : Cache} (h : cache.Grows middle) (h' : middle.Grows later) :
    cache.Grows later where
  extend := h.extend.trans h'.extend
  limits_eq := h'.limits_eq.trans h.limits_eq
  asked := h.asked.trans h'.asked
  journal := h.journal.trans h'.journal

end Grows

theorem grows_withNode (cache : Cache) (name : String) : cache.Grows (cache.withNode name) where
  extend := by
    rw [graph_withNode]
    exact cache.graph.extends_withNode name
  limits_eq := cache.limits_withNode name
  asked := by simp [asked_withNode]
  journal := cache.journal_withNode name

theorem grows_withEvent (cache : Cache) (event : Event) : cache.Grows (cache.withEvent event) :=
  ⟨.refl _, rfl, List.suffix_refl _, List.suffix_cons _ _⟩

theorem grows_withQuestion (cache : Cache) (name : String) :
    cache.Grows (cache.withQuestion name) :=
  ⟨.refl _, rfl, List.suffix_cons _ _, List.suffix_refl _⟩

theorem grows_withFailure (cache : Cache) (event : Event) : cache.Grows (cache.withFailure event) :=
  ⟨.refl _, rfl, List.suffix_refl _, List.suffix_cons _ _⟩

end NominalSubtyping.Cache
