import Mathlib.Data.Set.Card
import NominalSubtyping.Proofs.Cache.Loads
import NominalSubtyping.Source.Script

/-!
# What a load leaves behind

A load that ends without an answer of the source leaves the graph as it was, up to a bare node for
the name. A load that finishes takes over a part of the reported hierarchy that can be described
without any order of work. The names that it *walks* are the least set that contains the name asked
for and, with a type, the types that the snapshot lists directly below it and that were not complete
before. The graph then has the edges that are listed below a walked type and no other new ones, the
walked types and no others become complete, and the new nodes are those of listed types.

In either case the status says whether the name is complete.

## Main definitions

* `Cache.Walked`, `Cache.Listed` : the types that a load walks, and those listed below them.
* `Cache.Absorbed` : what the graph shows after a load that finished.

## Main results

* `Cache.TakesIn.absorbed`, `Cache.loaded_absorbed` : what a finished load does.
* `Cache.status_truthful` : the status tells what has become of the name.
-/

namespace NominalSubtyping

/-! ### Counting nodes by their names -/

namespace TypeGraph

variable {graph later : TypeGraph}

/-- The names with nodes are as many as the nodes. -/
theorem WellFormed.encard_contains (h : graph.WellFormed) :
    {name | graph.contains name = true}.encard = graph.size := by
  have himage : {name | graph.contains name = true} = graph.nameAt '' Finset.range graph.size := by
    ext name
    rw [Set.mem_ofPred_eq, contains_eq_true_iff]
    constructor
    · rintro ⟨id, hid⟩
      have hlt := h.lt_size hid
      exact ⟨id, Finset.mem_coe.2 (Finset.mem_range.2 hlt), h.lookup_inj (h.lookup_nameAt hlt) hid⟩
    · rintro ⟨id, hid, rfl⟩
      exact ⟨id, h.lookup_nameAt (Finset.mem_range.1 hid)⟩
  have hinj : Set.InjOn graph.nameAt (Finset.range graph.size) := fun _ hid _ hother =>
    h.nameAt_inj (Finset.mem_range.1 hid) (Finset.mem_range.1 hother)
  rw [himage, hinj.encard_image, Set.encard_coe_eq_coe_finsetCard, Finset.card_range]

/-- The names that got nodes are as many as the new nodes. -/
theorem Extends.encard_new (h : graph.Extends later) (hgraph : graph.WellFormed)
    (hlater : later.WellFormed) :
    {name | later.contains name = true ∧ graph.contains name = false}.encard =
      (later.size - graph.size : Nat) := by
  have hdiff : {name | later.contains name = true ∧ graph.contains name = false} =
      {name | later.contains name = true} \ {name | graph.contains name = true} := by
    ext name
    simp only [Set.mem_ofPred_eq, Set.mem_sdiff, Bool.not_eq_true]
  have hsubset : {name | graph.contains name = true} ⊆ {name | later.contains name = true} :=
    fun _ hc => h.contains hc
  have hcount := Set.encard_sdiff_add_encard_of_subset hsubset
  rw [← hdiff, hlater.encard_contains, hgraph.encard_contains] at hcount
  have hfinite : {name | later.contains name = true ∧ graph.contains name = false}.encard ≠ ⊤ := by
    intro htop
    rw [htop, top_add] at hcount
    exact ENat.top_ne_natCast _ hcount
  obtain ⟨count, heq⟩ := ENat.ne_top_iff_exists.1 hfinite
  rw [← heq] at hcount ⊢
  have hcount : count + graph.size = later.size := by exact_mod_cast hcount
  rw [← hcount, Nat.add_sub_cancel]

end TypeGraph

namespace Cache

variable {source : Source} {name : String} {snapshot : Snapshot} {cache filled later : Cache}

/-! ### Finished loads -/

/-- The types that a load of `name` walks: the least set with `name` that contains, with a type, the
types listed directly below it that are not complete in `graph`. -/
inductive Walked (snapshot : Snapshot) (name : String) (graph : TypeGraph) : String → Prop
  | root : Walked snapshot name graph name
  | child {sup sub : String} (hsup : Walked snapshot name graph sup)
      (hsub : sub ∈ snapshot.directSubtypes sup) (hincomplete : graph.isComplete sub = false) :
      Walked snapshot name graph sub

/-- The snapshot lists `sub` directly below a type that a load of `name` walks. -/
def Listed (snapshot : Snapshot) (name : String) (graph : TypeGraph) (sub : String) : Prop :=
  ∃ sup, Walked snapshot name graph sup ∧ sub ∈ snapshot.directSubtypes sup

/-- What has become of `graph` after a load of `name` that finished with `added` new nodes. -/
structure Absorbed (snapshot : Snapshot) (name : String) (added : Nat) (graph later : TypeGraph) :
    Prop where
  wellFormed : later.WellFormed
  extend : graph.Extends later
  hasEdge_iff : ∀ {sup sub}, later.HasEdge sup sub ↔ graph.HasEdge sup sub ∨
    (Walked snapshot name graph sup ∧ sub ∈ snapshot.directSubtypes sup)
  isComplete_iff : ∀ {other}, later.isComplete other = true ↔
    graph.isComplete other = true ∨ Walked snapshot name graph other
  contains_iff : ∀ {other}, later.contains other = true ↔
    graph.contains other = true ∨ other = name ∨ Listed snapshot name graph other
  /-- The name asked for has its node before the count begins. -/
  encard_eq : {sub | Listed snapshot name graph sub ∧
    ¬ (graph.contains sub = true ∨ sub = name)}.encard = added
  subtypesOf_eq : ∀ {other id}, graph.lookup other = some id →
    ¬ Walked snapshot name graph other → later.subtypesOf id = graph.subtypesOf id
  supertypesOf_eq : ∀ {other id}, graph.lookup other = some id →
    ¬ Listed snapshot name graph other → later.supertypesOf id = graph.supertypesOf id

theorem Walked.incomplete {graph : TypeGraph} {other : String}
    (h : Walked snapshot name graph other) (hname : graph.isComplete name = false) :
    graph.isComplete other = false := by
  cases h with
  | root => exact hname
  | child _ _ hincomplete => exact hincomplete

namespace TakesIn

variable (htaken : TakesIn source name snapshot true cache filled) (h : cache.graph.WellFormed)

include htaken h

/-- New edges and new complete nodes come from types that were walked. -/
theorem origin_walked : ∃ guard, Walk.Origin snapshot (Walked snapshot name cache.graph)
    (cache.opening name) ⟨filled, guard⟩ := by
  obtain ⟨id, guard, hid, hwalks⟩ := htaken.walks
  refine ⟨guard, hwalks.origin (sound_opening h name) hid (fun _ => .root) ?_⟩
  intro sup sub hsup hsub hincomplete
  rw [isComplete_opening h] at hincomplete
  exact hsup.child hsub hincomplete

/-- Every type that belongs to the walk was walked to its end. -/
theorem isComplete_of_walked {other : String} (hwalked : Walked snapshot name cache.graph other) :
    filled.graph.isComplete other = true := by
  have htakes := htaken.taken h
  induction hwalked with
  | root => exact htakes.settled rfl
  | child hsup hsub _ ih =>
    obtain ⟨-, hcomplete | ⟨hcut, -⟩⟩ := htakes.covered ih (hsup.incomplete htaken.incomplete) hsub
    · exact hcomplete
    · cases hcut

theorem hasEdge_iff {sup sub : String} : filled.graph.HasEdge sup sub ↔
    cache.graph.HasEdge sup sub ∨
      (Walked snapshot name cache.graph sup ∧ sub ∈ snapshot.directSubtypes sup) := by
  constructor
  · intro hedge
    obtain ⟨guard, horigin⟩ := htaken.origin_walked h
    refine (horigin.edge hedge).imp (hasEdge_opening h).1 ?_
    rintro ⟨hsup, hsub, -⟩
    exact ⟨hsup, hsub⟩
  · rintro (hedge | ⟨hsup, hsub⟩)
    · exact (htaken.grows h).extend.hasEdge hedge
    · exact ((htaken.taken h).covered (htaken.isComplete_of_walked h hsup)
        (hsup.incomplete htaken.incomplete) hsub).1

theorem isComplete_iff {other : String} : filled.graph.isComplete other = true ↔
    cache.graph.isComplete other = true ∨ Walked snapshot name cache.graph other := by
  constructor
  · intro hcomplete
    obtain ⟨guard, horigin⟩ := htaken.origin_walked h
    exact (horigin.complete hcomplete).imp_left (isComplete_opening h).symm.trans
  · rintro (hcomplete | hwalked)
    · exact (htaken.grows h).extend.isComplete hcomplete
    · exact htaken.isComplete_of_walked h hwalked

theorem contains_iff {other : String} : filled.graph.contains other = true ↔
    (cache.graph.withNode name).contains other = true ∨ Listed snapshot name cache.graph other := by
  obtain ⟨id, guard, hid, hwalks⟩ := htaken.walks
  have hsound := sound_opening h name
  have hopening : (cache.opening name).graph = cache.graph.withNode name :=
    cache.graph_withNode name
  constructor
  · intro hother
    rcases hwalks.named hsound hid hother with hold | ⟨sup, hedge⟩
    · exact Or.inl (hopening ▸ hold)
    · rcases (htaken.hasEdge_iff h).1 hedge with hold | ⟨hsup, hsub⟩
      · exact Or.inl (TypeGraph.contains_withNode.2 (Or.inl hold.contains))
      · exact Or.inr ⟨sup, hsup, hsub⟩
  · rintro (hold | ⟨sup, hsup, hsub⟩)
    · exact (hwalks.kept hsound hid).extend.contains (hopening ▸ hold)
    · exact ((htaken.hasEdge_iff h).2 (Or.inr ⟨hsup, hsub⟩)).contains

/-- The new nodes are counted from the moment at which the name asked for has its node. -/
theorem encard_eq : {sub | Listed snapshot name cache.graph sub ∧
    ¬ (cache.graph.contains sub = true ∨ sub = name)}.encard =
      (filled.graph.size - (cache.graph.withNode name).size : Nat) := by
  obtain ⟨guard, hkept⟩ := htaken.kept h
  have hextend : (cache.graph.withNode name).Extends filled.graph := by
    rw [← cache.graph_withNode name]
    exact hkept.extend
  rw [← hextend.encard_new (h.withNode name) (htaken.wellFormed h)]
  congr 1
  ext sub
  simp only [Set.mem_ofPred_eq, htaken.contains_iff h, ← Bool.not_eq_true,
    TypeGraph.contains_withNode]
  tauto

theorem absorbed : Absorbed snapshot name (filled.graph.size - (cache.graph.withNode name).size)
    cache.graph filled.graph where
  wellFormed := htaken.wellFormed h
  extend := (htaken.grows h).extend
  hasEdge_iff := htaken.hasEdge_iff h
  isComplete_iff := htaken.isComplete_iff h
  contains_iff := by
    intro other
    rw [htaken.contains_iff h, TypeGraph.contains_withNode, or_assoc]
  encard_eq := htaken.encard_eq h
  subtypesOf_eq {other id} hid hother := by
    refine (htaken.grows h).extend.subtypesOf_eq (htaken.wellFormed h) hid fun sub hedge => ?_
    exact ((htaken.hasEdge_iff h).1 hedge).resolve_right fun hnew => hother hnew.1
  supertypesOf_eq {other id} hid hother := by
    refine (htaken.grows h).extend.supertypesOf_eq h (htaken.wellFormed h) hid fun sup hedge => ?_
    exact ((htaken.hasEdge_iff h).1 hedge).resolve_right fun hnew => hother ⟨sup, hnew⟩

end TakesIn

/-- What a finished load does: it walks the least set of types that holds the name asked for and is
closed under listed types that are not complete; it records what is listed below them, and nothing
else. -/
theorem loaded_absorbed (h : cache.graph.WellFormed)
    (hreply : source cache.asked name = .found snapshot) {added : Nat}
    (hload : load source name cache = .ok (.loaded added) later) :
    Absorbed snapshot name added cache.graph later.graph := by
  have hloads : Loads source name cache (.ok (.loaded added)) later := loads_of_load_eq h hload
  cases hloads with
  | loaded htaken =>
    obtain rfl := Reply.found.inj (htaken.reply.symm.trans hreply)
    exact htaken.absorbed h

/-- A cycle through `A` and `B`, an edge from `B` to itself, `C` listed below both, and below the
complete `D` a type that is not taken over. -/
theorem loaded_absorbed_cycle :
    let edges := [("B", "A"), ("C", "A"), ("D", "A"), ("A", "B"), ("B", "B"), ("C", "B"),
      ("E", "D")]
    let script : Script :=
      { responses := [("A", [.hierarchy edges]), ("D", [.hierarchy []])] }
    let cache := finalState (load script.toSource "D") (new ⟨4, 8⟩)
    let later := finalState (load script.toSource "A") cache
    cache.graph.WellFormed ∧
      script.toSource cache.asked "A" = .found ⟨"A", .ofEdges edges⟩ ∧
      load script.toSource "A" cache = .ok (.loaded 2) later ∧
      Absorbed ⟨"A", .ofEdges edges⟩ "A" 2 cache.graph later.graph := by
  intro edges script cache later
  have hwf : cache.graph.WellFormed := by
    obtain ⟨outcome, cache', hload, hloads⟩ :=
      load_loads (wellFormed_new ⟨4, 8⟩) script.toSource "D"
    rw [show cache = cache' from finalState_of_ending hload]
    exact hloads.wellFormed (wellFormed_new _)
  have hasked : cache.asked = ["D"] := by decide +kernel
  have hreply : script.toSource cache.asked "A" = .found ⟨"A", .ofEdges edges⟩ := by
    rw [hasked]
    rfl
  have hload : load script.toSource "A" cache = .ok (.loaded 2) later :=
    eq_ok_of_run' (by decide +kernel)
  exact ⟨hwf, hreply, hload, loaded_absorbed hwf hreply hload⟩

/-! ### Loads in vain -/

/-- A question put in vain changes nothing but the counters, the names asked for, the journal, and
the graph if the name had no node. -/
theorem vain_eq (cache : Cache) (name : String) (event : Event) :
    ∃ journal, ((cache.withNode name).withQuestion name).withFailure event =
      { cache with
        graph := if cache.graph.contains name then cache.graph else cache.graph.add name
        lookups := cache.lookups + 1
        failures := cache.failures + 1
        asked := name :: cache.asked
        journal } := by
  rw [withNode]
  cases hlookup : cache.graph.lookup name with
  | some id =>
    rw [if_pos (TypeGraph.contains_eq_true_iff.2 ⟨id, hlookup⟩)]
    exact ⟨_, rfl⟩
  | none =>
    rw [if_neg fun hc => ?_]
    · exact ⟨_, rfl⟩
    · obtain ⟨id, hid⟩ := TypeGraph.contains_eq_true_iff.1 hc
      cases hlookup.symm.trans hid

theorem Loads.eq_of_vain {status : LoadStatus} (hload : Loads source name cache (.ok status) later)
    (hvain : status = .unresolved ∨ status = .failed) :
    ∃ event, later = ((cache.withNode name).withQuestion name).withFailure event := by
  cases hload with
  | alreadyComplete => simp at hvain
  | unresolved => exact ⟨_, rfl⟩
  | failed => exact ⟨_, rfl⟩
  | truncated => simp at hvain
  | loaded => simp at hvain

/-- A load returns unless the source crashes, and its status says whether the name is complete
afterwards. A load that was in vain leaves all else as it was, but for a bare node if the name had
none, the two counters, the names asked for and the journal. -/
theorem status_truthful (h : cache.graph.WellFormed)
    (hcrash : ∀ message, source cache.asked name ≠ .crashed message) :
    ∃ status later, load source name cache = .ok status later ∧
      (status.isComplete = true ↔ later.graph.isComplete name = true) ∧
      (status = .unresolved ∨ status = .failed →
        later =
          { cache with
            graph := if cache.graph.contains name then cache.graph else cache.graph.add name
            lookups := cache.lookups + 1
            failures := cache.failures + 1
            asked := name :: cache.asked
            journal := later.journal } ∧
        (cache.graph.contains name = false → later.graph.nodeNamed? name =
          some { name, supertypes := [], subtypes := [], complete := false })) := by
  obtain ⟨outcome, later, hload, hloads⟩ := load_loads h source name
  cases outcome with
  | error fault =>
    cases hloads with
    | crashed _ hreply => exact absurd hreply (hcrash _)
  | ok status =>
    refine ⟨status, later, hload, by rw [hloads.isComplete_eq h], fun hvain => ?_⟩
    obtain ⟨event, rfl⟩ := hloads.eq_of_vain hvain
    obtain ⟨journal, heq⟩ := vain_eq cache name event
    rw [heq]
    refine ⟨rfl, fun hnew => ?_⟩
    dsimp only
    rw [hnew, if_neg Bool.false_ne_true, TypeGraph.nodeNamed?_add]

/-- Three loads of one type: the source gives the lookup up, then reports a cycle that is too deep
for the limits, and then one that is not. -/
theorem status_truthful_retries :
    let source : Source := fun asked name =>
      match asked.length with
      | 0 => .failed (.disconnected name)
      | 1 => .found ⟨name, .ofEdges [("B", name), ("C", "B"), ("D", "C"), (name, "D")]⟩
      | _ => .found ⟨name, .ofEdges [("B", name), (name, "B")]⟩
    let cache := new ⟨3, 10⟩
    cache.graph.WellFormed ∧ (∀ asked message, source asked "A" ≠ .crashed message) ∧
      ∃ failed truncated loaded,
        load source "A" cache = .ok .failed failed ∧ failed.graph.isComplete "A" = false ∧
        failed.graph = cache.graph.add "A" ∧ failed.graph.nodeNamed? "A" = some { name := "A" } ∧
        failed.lookups = 1 ∧ failed.failures = 1 ∧
        load source "A" failed = .ok .truncated truncated ∧
        truncated.graph.isComplete "A" = false ∧
        load source "A" truncated = .ok (.loaded 0) loaded ∧
        loaded.graph.isComplete "A" = true := by
  intro source cache
  have hwf := wellFormed_new ⟨3, 10⟩
  have hcrash (asked : List String) (message : String) : source asked "A" ≠ .crashed message := by
    simp only [source]
    split <;> exact nofun
  have hkeeps {cache later : Cache} {status : LoadStatus} (hwf : cache.graph.WellFormed)
      (hload : load source "A" cache = .ok status later) : later.graph.WellFormed := by
    have hloads : Loads source "A" cache (.ok status) later := loads_of_load_eq hwf hload
    exact hloads.wellFormed hwf
  have hfailed : load source "A" cache = .ok .failed _ := eq_ok_of_run' (by decide +kernel)
  have htruncated : load source "A" (finalState (load source "A") cache) = .ok .truncated _ :=
    eq_ok_of_run' (by decide +kernel)
  have hloaded : load source "A"
      (finalState (load source "A") (finalState (load source "A") cache)) = .ok (.loaded 0) _ :=
    eq_ok_of_run' (by decide +kernel)
  obtain ⟨_, _, hfirst, hstatus, hvain⟩ := status_truthful hwf (hcrash cache.asked)
  obtain ⟨_, _, hsecond, hstatus', -⟩ := status_truthful (hkeeps hwf hfailed) (hcrash _)
  obtain ⟨_, _, hthird, hstatus'', -⟩ :=
    status_truthful (hkeeps (hkeeps hwf hfailed) htruncated) (hcrash _)
  obtain ⟨rfl, rfl⟩ := EStateM.Result.ok.inj (hfailed.symm.trans hfirst)
  obtain ⟨rfl, rfl⟩ := EStateM.Result.ok.inj (htruncated.symm.trans hsecond)
  obtain ⟨rfl, rfl⟩ := EStateM.Result.ok.inj (hloaded.symm.trans hthird)
  have hnew : cache.graph.contains "A" = false := by decide +kernel
  obtain ⟨hlater, hnode⟩ := hvain (Or.inr rfl)
  refine ⟨hwf, hcrash, _, _, _, hfailed, Bool.eq_false_iff.2 (mt hstatus.2 Bool.false_ne_true), ?_,
    hnode hnew, ?_, ?_, htruncated, Bool.eq_false_iff.2 (mt hstatus'.2 Bool.false_ne_true), hloaded,
    hstatus''.1 rfl⟩
  all_goals rw [hlater]
  · dsimp only
    rw [hnew, if_neg Bool.false_ne_true]
  · rfl
  · rfl

end Cache

end NominalSubtyping
