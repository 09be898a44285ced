import NominalSubtyping.Cache.Walk
import NominalSubtyping.Proofs.Cache.Actions
import NominalSubtyping.Proofs.Limits.Guard

/-!
# The runs of a walk

The walk through a reported hierarchy is described once more, as a relation between the state before
a *task*, the verdict on it, and the state after. A task is either to take over a node with
everything below it, or to take over the rest of the direct subtypes of a node that is being walked.
Each rule of the relation is one thing that the walk can do, so what holds of every walk is proved
by induction over the rules.

A walk starts from a *sound* state: the graph is well-formed, and the guard is visiting nodes of the
graph that are not complete, as many as its depth says. From there the walk does not fail, it has a
run in the relation, and it gives the guard back as it was.

## Main definitions

* `Walk.Task`, `Walk.Walks` : tasks and their runs.
* `Walk.Sound` : the states in which a walk may start.
* `Walk.Kept` : what a run leaves as it was.

## Main results

* `Walk.Walks.kept` : every run keeps the state sound and only extends the graph.
* `Walk.Walks.functional` : a task has one run.
* `Walk.walk_eq` : every walk has a run.
-/

namespace NominalSubtyping.Walk

/-- The graph that is being filled. -/
abbrev graph (walk : Walk) : TypeGraph :=
  walk.cache.graph

/-- What a walk has to do. -/
inductive Task where
  /-- Take over the type `name` with node `id` and everything below it. -/
  | node (name : String) (id : NodeId)
  /-- Take over `subs`, the direct subtypes that are left of the type `name` with node `id`. -/
  | below (name : String) (id : NodeId) (subs : List String)

/-- The runs of a task: the state before, whether the node counts as complete, the state after. -/
inductive Walks (snapshot : Snapshot) : Task → Walk → Bool → Walk → Prop
  | complete {name id walk} (hcomplete : walk.graph.completeAt id = true) :
      Walks snapshot (.node name id) walk true walk
  | refused {name id cache guard after entry} (hcomplete : cache.graph.completeAt id = false)
      (henter : guard.enter id = (entry, after)) (hexceeded : entry.isExceeded = true) :
      Walks snapshot (.node name id) ⟨cache, guard⟩ false ⟨cache, after⟩
  | cycle {name id cache guard after} (hcomplete : cache.graph.completeAt id = false)
      (henter : guard.enter id = (.cycle, after)) :
      Walks snapshot (.node name id) ⟨cache, guard⟩ true ⟨cache, after⟩
  | visit {name id cache guard entered complete filled inner after}
      (hcomplete : cache.graph.completeAt id = false)
      (henter : guard.enter id = (.entered, entered))
      (hbelow : Walks snapshot (.below name id (snapshot.directSubtypes name)) ⟨cache, entered⟩
        complete ⟨filled, inner⟩)
      (hleave : inner.leave id = .ok after) :
      Walks snapshot (.node name id) ⟨cache, guard⟩ complete
        ⟨if complete then filled.withComplete id else filled, after⟩
  | done {name id walk} : Walks snapshot (.below name id []) walk true walk
  | child {name id sub subId subs cache guard first middle rest later}
      (hsub : (cache.withNode sub).graph.lookup sub = some subId)
      (hnode : Walks snapshot (.node sub subId) ⟨(cache.withNode sub).withEdge id subId, guard⟩
        first middle)
      (hrest : Walks snapshot (.below name id subs) middle rest later) :
      Walks snapshot (.below name id (sub :: subs)) ⟨cache, guard⟩ (first && rest) later

/-- The states in which a walk may start. -/
structure Sound (walk : Walk) : Prop where
  wellFormed : walk.graph.WellFormed
  nodup : walk.guard.visiting.Nodup
  depth_eq : walk.guard.depth = walk.guard.visiting.length
  visiting_lt : ∀ id ∈ walk.guard.visiting, id < walk.graph.size
  incomplete : ∀ id ∈ walk.guard.visiting, walk.graph.completeAt id = false

/-- The task is about a node of the graph; the direct subtypes that are left of a node are reported
ones, and the node is being walked. -/
def Task.Valid (snapshot : Snapshot) (walk : Walk) : Task → Prop
  | node name id => walk.graph.lookup name = some id
  | below name id subs => walk.graph.lookup name = some id ∧ id ∈ walk.guard.visiting ∧
      ∀ sub ∈ subs, sub ∈ snapshot.directSubtypes name

/-- The name that the task is about. -/
def Task.name : Task → String
  | node name _ => name
  | below name _ _ => name

/-- What a run leaves as it was. -/
structure Kept (walk later : Walk) : Prop where
  sound : later.Sound
  extend : walk.graph.Extends later.graph
  visiting : later.guard.visiting = walk.guard.visiting
  limits : later.guard.limits = walk.guard.limits
  cacheLimits : later.cache.limits = walk.cache.limits
  asked : later.cache.asked = walk.cache.asked
  journal : walk.cache.journal <:+ later.cache.journal

namespace Kept

variable {walk middle later : Walk}

theorem refl (h : walk.Sound) : walk.Kept walk :=
  ⟨h, .refl _, rfl, rfl, rfl, rfl, List.suffix_refl _⟩

theorem trans (h : walk.Kept middle) (h' : middle.Kept later) : walk.Kept later where
  sound := h'.sound
  extend := h.extend.trans h'.extend
  visiting := h'.visiting.trans h.visiting
  limits := h'.limits.trans h.limits
  cacheLimits := h'.cacheLimits.trans h.cacheLimits
  asked := h'.asked.trans h.asked
  journal := h.journal.trans h'.journal

end Kept

namespace Sound

variable {cache : Cache} {guard after : Guard NodeId} {id : NodeId}

/-- Only the visited nodes of a guard and its depth matter. -/
theorem congr_guard (h : Sound ⟨cache, guard⟩) (hv : after.visiting = guard.visiting)
    (hd : after.depth = guard.depth) : Sound ⟨cache, after⟩ where
  wellFormed := h.wellFormed
  nodup := by
    simp only [hv]
    exact h.nodup
  depth_eq := by
    simp only [hv, hd]
    exact h.depth_eq
  visiting_lt := by
    simp only [hv]
    exact h.visiting_lt
  incomplete := by
    simp only [hv]
    exact h.incomplete

theorem enter (h : Sound ⟨cache, guard⟩) (hid : id < cache.graph.size)
    (hcomplete : cache.graph.completeAt id = false)
    (henter : guard.enter id = (.entered, after)) : Sound ⟨cache, after⟩ := by
  obtain ⟨hnew, rfl⟩ := Guard.enter_entered henter
  refine ⟨h.wellFormed, List.nodup_cons.2 ⟨hnew, h.nodup⟩, ?_, ?_, ?_⟩
  · simp only [List.length_cons]
    rw [h.depth_eq]
  · intro other hother
    rcases List.mem_cons.1 hother with rfl | hother
    · exact hid
    · exact h.visiting_lt other hother
  · intro other hother
    rcases List.mem_cons.1 hother with rfl | hother
    · exact hcomplete
    · exact h.incomplete other hother

/-- A grown graph with the same complete nodes stays sound. -/
theorem grow {grown : Cache} (h : Sound ⟨cache, guard⟩) (hwf : grown.graph.WellFormed)
    (hextend : cache.graph.Extends grown.graph)
    (hcomplete : ∀ id, grown.graph.completeAt id = cache.graph.completeAt id) :
    Sound ⟨grown, guard⟩ where
  wellFormed := hwf
  nodup := h.nodup
  depth_eq := h.depth_eq
  visiting_lt id hid := Nat.lt_of_lt_of_le (h.visiting_lt id hid) hextend.size_le
  incomplete id hid := (hcomplete id).trans (h.incomplete id hid)

/-- Recording a reported edge. -/
theorem link (h : Sound ⟨cache, guard⟩) {sub : String} {subId : NodeId}
    (hid : id < cache.graph.size) (hsub : (cache.withNode sub).graph.lookup sub = some subId) :
    (⟨cache, guard⟩ : Walk).Kept ⟨(cache.withNode sub).withEdge id subId, guard⟩ := by
  have hnode := Cache.wellFormed_withNode h.wellFormed sub
  have hextend := (cache.grows_withNode sub).extend
  have hid' := Nat.lt_of_lt_of_le hid hextend.size_le
  have hgrown := hextend.trans (TypeGraph.extends_withEdge hid' (hnode.lt_size hsub))
  refine ⟨h.grow (hnode.withEdge hid' (hnode.lt_size hsub)) hgrown fun other => ?_,
    hgrown, rfl, rfl, cache.limits_withNode sub, cache.asked_withNode sub,
    cache.journal_withNode sub⟩
  rw [Cache.graph_withEdge, TypeGraph.completeAt_withEdge, Cache.graph_withNode,
    TypeGraph.completeAt_withNode]

end Sound

/-- All reported subtypes of a node are left when its visit begins. -/
theorem Task.valid_entered (snapshot : Snapshot) {cache : Cache} {guard entered : Guard NodeId}
    {name : String} {id : NodeId} (hid : cache.graph.lookup name = some id)
    (henter : guard.enter id = (.entered, entered)) :
    (Task.below name id (snapshot.directSubtypes name)).Valid snapshot ⟨cache, entered⟩ := by
  obtain ⟨-, rfl⟩ := Guard.enter_entered henter
  exact ⟨hid, List.mem_cons_self, fun _ h => h⟩

theorem Task.Valid.rest {snapshot : Snapshot} {walk later : Walk} {name sub : String} {id : NodeId}
    {subs : List String} (hv : (Task.below name id (sub :: subs)).Valid snapshot walk)
    (hkept : walk.Kept later) : (Task.below name id subs).Valid snapshot later := by
  obtain ⟨hid, hvisiting, hreported⟩ := hv
  refine ⟨hkept.extend.lookup hid, ?_, fun other h => hreported other (List.mem_cons_of_mem _ h)⟩
  rw [hkept.visiting]
  exact hvisiting

/-- The end of the visit of a node, which is marked complete or not. -/
theorem Kept.leave {cache filled : Cache} {guard entered inner after : Guard NodeId} {name : String}
    {id : NodeId} (hlookup : cache.graph.lookup name = some id)
    (henter : guard.enter id = (.entered, entered))
    (hkept : (⟨cache, entered⟩ : Walk).Kept ⟨filled, inner⟩) (hleave : inner.leave id = .ok after)
    (complete : Bool) : (⟨cache, guard⟩ : Walk).Kept
      ⟨if complete then filled.withComplete id else filled, after⟩ := by
  obtain ⟨hnew, rfl⟩ := Guard.enter_entered henter
  have hvisiting : inner.visiting = id :: guard.visiting := hkept.visiting
  obtain rfl := Except.ok.inj ((Guard.leave_newest hvisiting).symm.trans hleave)
  have hid : id < filled.graph.size := hkept.sound.wellFormed.lt_size (hkept.extend.lookup hlookup)
  have hdepth : inner.depth = guard.visiting.length + 1 := by
    rw [hkept.sound.depth_eq, hvisiting, List.length_cons]
  have hmem {other : NodeId} (h : other ∈ guard.visiting) : other ∈ inner.visiting := by
    rw [hvisiting]
    exact List.mem_cons_of_mem id h
  have hsound : Sound
      ⟨filled, { inner with visiting := guard.visiting, depth := inner.depth - 1 }⟩ :=
    { wellFormed := hkept.sound.wellFormed
      nodup := (List.nodup_cons.1 (hvisiting ▸ hkept.sound.nodup)).2
      depth_eq := by simp only [hdepth, Nat.add_sub_cancel]
      visiting_lt := fun other h => hkept.sound.visiting_lt other (hmem h)
      incomplete := fun other h => hkept.sound.incomplete other (hmem h) }
  cases complete with
  | false =>
    exact ⟨hsound, hkept.extend, rfl, hkept.limits, hkept.cacheLimits, hkept.asked, hkept.journal⟩
  | true =>
    refine ⟨⟨hsound.wellFormed.withComplete id, hsound.nodup, hsound.depth_eq, ?_, ?_⟩,
      hkept.extend.trans (TypeGraph.extends_withComplete hid), rfl, hkept.limits, hkept.cacheLimits,
      hkept.asked, hkept.journal⟩
    · intro other hother
      rw [if_pos rfl, graph, Cache.graph_withComplete, TypeGraph.size_withComplete]
      exact hsound.visiting_lt other hother
    · intro other hother
      have hne : id ≠ other := fun heq => hnew (heq ▸ hother)
      rw [if_pos rfl, graph, Cache.graph_withComplete, TypeGraph.completeAt_withComplete _ hid,
        if_neg hne]
      exact hsound.incomplete other hother

namespace Walks

variable {snapshot : Snapshot} {task : Task} {walk later : Walk} {complete : Bool}

/-- Every run keeps the state sound, only extends the graph, and gives the guard back. -/
theorem kept (h : Walks snapshot task walk complete later) (hs : walk.Sound)
    (hv : task.Valid snapshot walk) : walk.Kept later := by
  induction h with
  | complete => exact .refl hs
  | refused _ henter hexceeded =>
    obtain ⟨-, rfl⟩ := Guard.enter_exceeded henter hexceeded
    exact ⟨hs.congr_guard rfl rfl, .refl _, rfl, rfl, rfl, rfl, List.suffix_refl _⟩
  | cycle _ henter =>
    obtain ⟨-, rfl⟩ := Guard.enter_cycle henter
    exact ⟨hs.congr_guard rfl rfl, .refl _, rfl, rfl, rfl, rfl, List.suffix_refl _⟩
  | visit hcomplete henter _ hleave ih =>
    have hentered := hs.enter (hs.wellFormed.lt_size hv) hcomplete henter
    exact Kept.leave hv henter (ih hentered (Task.valid_entered _ hv henter)) hleave _
  | done => exact .refl hs
  | child hsub _ _ ihNode ihRest =>
    have hlink := hs.link (hs.wellFormed.lt_size hv.1) hsub
    have hkept := hlink.trans (ihNode hlink.sound hsub)
    exact hkept.trans (ihRest hkept.sound (hv.rest hkept))

/-- A task has one run. -/
theorem functional {later' : Walk} {complete' : Bool}
    (h : Walks snapshot task walk complete later)
    (h' : Walks snapshot task walk complete' later') : complete = complete' ∧ later = later' := by
  induction h generalizing complete' later' with
  | complete hcomplete =>
    cases h' with
    | complete => exact ⟨rfl, rfl⟩
    | refused hc => exact absurd (hc.symm.trans hcomplete) Bool.false_ne_true
    | cycle hc => exact absurd (hc.symm.trans hcomplete) Bool.false_ne_true
    | visit hc => exact absurd (hc.symm.trans hcomplete) Bool.false_ne_true
  | refused hcomplete henter hexceeded =>
    cases h' with
    | complete hc => exact absurd (hcomplete.symm.trans hc) Bool.false_ne_true
    | refused _ henter' =>
      obtain ⟨-, rfl⟩ := Prod.mk.inj (henter.symm.trans henter')
      exact ⟨rfl, rfl⟩
    | cycle _ henter' =>
      obtain ⟨rfl, -⟩ := Prod.mk.inj (henter.symm.trans henter')
      cases hexceeded
    | visit _ henter' =>
      obtain ⟨rfl, -⟩ := Prod.mk.inj (henter.symm.trans henter')
      cases hexceeded
  | cycle hcomplete henter =>
    cases h' with
    | complete hc => exact absurd (hcomplete.symm.trans hc) Bool.false_ne_true
    | refused _ henter' hexceeded =>
      obtain ⟨rfl, -⟩ := Prod.mk.inj (henter.symm.trans henter')
      cases hexceeded
    | cycle _ henter' =>
      obtain ⟨-, rfl⟩ := Prod.mk.inj (henter.symm.trans henter')
      exact ⟨rfl, rfl⟩
    | visit _ henter' => cases (Prod.mk.inj (henter.symm.trans henter')).1
  | visit hcomplete henter _ hleave ih =>
    cases h' with
    | complete hc => exact absurd (hcomplete.symm.trans hc) Bool.false_ne_true
    | refused _ henter' hexceeded =>
      obtain ⟨rfl, -⟩ := Prod.mk.inj (henter.symm.trans henter')
      cases hexceeded
    | cycle _ henter' => cases (Prod.mk.inj (henter.symm.trans henter')).1
    | visit _ henter' hbelow' hleave' =>
      obtain ⟨-, rfl⟩ := Prod.mk.inj (henter.symm.trans henter')
      obtain ⟨rfl, heq⟩ := ih hbelow'
      obtain ⟨rfl, rfl⟩ := Walk.mk.inj heq
      obtain rfl := Except.ok.inj (hleave.symm.trans hleave')
      exact ⟨rfl, rfl⟩
  | done =>
    cases h'
    exact ⟨rfl, rfl⟩
  | child hsub _ _ ihNode ihRest =>
    cases h' with
    | child hsub' hnode' hrest' =>
      obtain rfl := Option.some.inj (hsub.symm.trans hsub')
      obtain ⟨rfl, rfl⟩ := ihNode hnode'
      obtain ⟨rfl, rfl⟩ := ihRest hrest'
      exact ⟨rfl, rfl⟩

/-- A node with the verdict no is left incomplete. -/
theorem completeAt_eq_false {name : String} {id : NodeId}
    (h : Walks snapshot (.node name id) walk false later) (hs : walk.Sound)
    (hv : walk.graph.lookup name = some id) : later.graph.completeAt id = false := by
  cases h with
  | refused hcomplete => exact hcomplete
  | visit hcomplete henter hbelow hleave =>
    have hentered := hs.enter (hs.wellFormed.lt_size hv) hcomplete henter
    have hkept := hbelow.kept hentered (Task.valid_entered _ hv henter)
    refine hkept.sound.incomplete id ?_
    rw [hkept.visiting, (Guard.enter_entered henter).2]
    exact List.mem_cons_self

end Walks

/-! ### Every walk has a run -/

section Runs

variable {α : Type} {cache : Cache} {guard : Guard NodeId}

theorem onCache_eq_of_ok {action : CacheM α} {value : α} {cache' : Cache}
    (h : action cache = .ok value cache') :
    onCache action ⟨cache, guard⟩ = .ok value ⟨cache', guard⟩ := by
  simp only [onCache, focus]
  rw [h]

theorem leave_eq_of_ok {id : NodeId} {after : Guard NodeId} (h : guard.leave id = .ok after) :
    leave id ⟨cache, guard⟩ = .ok ⟨⟩ ⟨cache, after⟩ := by
  simp only [leave, focus]
  rw [Guard.release_of_leave h]

/-- What is decided about a node before it is walked. -/
theorem approach_eq (guard : Guard NodeId) {id : NodeId} (hid : id < cache.graph.size) :
    approach id ⟨cache, guard⟩ =
      if cache.graph.completeAt id then .ok (some true) ⟨cache, guard⟩
      else
        match guard.enter id with
        | (.entered, after) => .ok none ⟨cache, after⟩
        | (.cycle, after) => .ok (some true) ⟨cache, after⟩
        | (.depthExceeded, after) | (.iterationExceeded, after) =>
          .ok (some false) ⟨cache, after⟩ := by
  obtain ⟨node, hnode, hcomplete⟩ := TypeGraph.node_eq_ok hid
  have hinspect : onCache (Cache.inspect (·.node id)) ⟨cache, guard⟩ = .ok node ⟨cache, guard⟩ :=
    onCache_eq_of_ok (Cache.inspect_eq_of_ok _ hnode)
  rw [approach, bind_eq_of_ok hinspect, hcomplete]
  split
  · rfl
  · change EStateM.bind (Walk.enter id) _ _ = _
    rw [EStateM.bind, Walk.enter]
    obtain ⟨entry, after⟩ := guard.enter id
    cases entry <;> rfl

variable (snapshot : Snapshot)

/-- The direct subtypes of a node are taken over one after the other, given how each of them is. -/
private theorem foldlM_eq {room : Nat} {name : String} {id : NodeId}
    (hwalk : ∀ {sub : String} {subId : NodeId} {walk : Walk}, walk.Sound →
      walk.graph.lookup sub = some subId →
      walk.guard.limits.maxDepth ≤ walk.guard.depth + room →
      ∃ complete later, Walk.walk snapshot room sub subId walk = .ok complete later ∧
        Walks snapshot (.node sub subId) walk complete later) :
    ∀ (subs : List String) {walk : Walk} (acc : Bool), walk.Sound →
      (Task.below name id subs).Valid snapshot walk →
      walk.guard.limits.maxDepth ≤ walk.guard.depth + room →
      ∃ complete later, (subs.foldlM (fun complete sub => do
          let subId ← onCache (Cache.intern sub)
          onCache (Cache.onGraph (TypeGraph.link id subId))
          let below ← Walk.walk snapshot room sub subId
          return complete && below) acc : WalkM Bool) walk = .ok (acc && complete) later ∧
        Walks snapshot (.below name id subs) walk complete later
  | [], walk, acc, _, _, _ => by
    refine ⟨true, walk, ?_, .done⟩
    rw [Bool.and_true]
    rfl
  | sub :: subs, ⟨cache, guard⟩, acc, hs, hv, hroom => by
    have hid := hv.1
    obtain ⟨subId, hsub, hintern⟩ := cache.intern_eq sub
    have hlink := hs.link (hs.wellFormed.lt_size hid) hsub
    have hgraph : TypeGraph.link id subId (cache.withNode sub).graph =
        .ok () ((cache.withNode sub).graph.withEdge id subId) := by
      have hnode := Cache.wellFormed_withNode hs.wellFormed sub
      refine TypeGraph.link_eq hnode ?_ (hnode.lt_size hsub)
      rw [Cache.graph_withNode]
      exact Nat.lt_of_lt_of_le (hs.wellFormed.lt_size hid)
        (cache.graph.extends_withNode sub).size_le
    obtain ⟨first, middle, hfirst, hnode⟩ := hwalk hlink.sound hsub hroom
    have hkept := hlink.trans (hnode.kept hlink.sound hsub)
    have hdepth : middle.guard.depth = guard.depth := by
      rw [hkept.sound.depth_eq, hkept.visiting, ← hs.depth_eq]
    have hroom' : middle.guard.limits.maxDepth ≤ middle.guard.depth + room := by
      rw [hkept.limits, hdepth]
      exact hroom
    obtain ⟨rest, later, hrest, hbelow⟩ :=
      foldlM_eq hwalk subs (acc && first) hkept.sound (hv.rest hkept) hroom'
    refine ⟨first && rest, later, ?_, .child hsub hnode hbelow⟩
    rw [List.foldlM_cons, ← Bool.and_assoc, ← hrest]
    refine bind_eq_of_ok ?_
    rw [bind_eq_of_ok (onCache_eq_of_ok hintern),
      bind_eq_of_ok (onCache_eq_of_ok (Cache.onGraph_eq_of_ok hgraph))]
    exact bind_eq_of_ok hfirst

/-- A walk from a sound state does not fail, and it has a run. The guard refuses to go deeper before
the room of the walk is used up. -/
theorem walk_eq (room : Nat) : ∀ {name : String} {id : NodeId} {walk : Walk}, walk.Sound →
    walk.graph.lookup name = some id → walk.guard.limits.maxDepth ≤ walk.guard.depth + room →
    ∃ complete later, Walk.walk snapshot room name id walk = .ok complete later ∧
      Walks snapshot (.node name id) walk complete later := by
  induction room with
  | zero =>
    rintro name id ⟨cache, guard⟩ hs hid hroom
    have happroach := approach_eq guard (hs.wellFormed.lt_size hid)
    rw [Walk.walk]
    by_cases hcomplete : cache.graph.completeAt id = true
    · rw [if_pos hcomplete] at happroach
      exact ⟨true, _, bind_eq_of_ok happroach, .complete hcomplete⟩
    · obtain ⟨entry, after, henter, hexceeded⟩ := guard.enter_of_depth_le id hroom
      rw [if_neg hcomplete, henter] at happroach
      refine ⟨false, ⟨cache, after⟩, ?_, .refused (Bool.eq_false_iff.2 hcomplete) henter hexceeded⟩
      cases entry with
      | entered => cases hexceeded
      | cycle => cases hexceeded
      | depthExceeded => exact bind_eq_of_ok happroach
      | iterationExceeded => exact bind_eq_of_ok happroach
  | succ room ih =>
    rintro name id ⟨cache, guard⟩ hs hid hroom
    have happroach := approach_eq guard (hs.wellFormed.lt_size hid)
    rw [Walk.walk]
    by_cases hcomplete : cache.graph.completeAt id = true
    · rw [if_pos hcomplete] at happroach
      exact ⟨true, _, bind_eq_of_ok happroach, .complete hcomplete⟩
    · rw [if_neg hcomplete] at happroach
      replace hcomplete := Bool.eq_false_iff.2 hcomplete
      rcases henter : guard.enter id with ⟨entry, entered⟩
      rw [henter] at happroach
      cases entry with
      | cycle => exact ⟨true, _, bind_eq_of_ok happroach, .cycle hcomplete henter⟩
      | depthExceeded => exact ⟨false, _, bind_eq_of_ok happroach, .refused hcomplete henter rfl⟩
      | iterationExceeded =>
        exact ⟨false, _, bind_eq_of_ok happroach, .refused hcomplete henter rfl⟩
      | entered =>
        have hentered := hs.enter (hs.wellFormed.lt_size hid) hcomplete henter
        have hguard := (Guard.enter_entered henter).2
        have hvalid := Task.valid_entered snapshot hid henter
        have hdeeper : entered.limits.maxDepth ≤ entered.depth + room := by
          rw [hguard]
          change guard.limits.maxDepth ≤ guard.depth + 1 + room
          change guard.limits.maxDepth ≤ guard.depth + (room + 1) at hroom
          omega
        obtain ⟨complete, ⟨filled, inner⟩, hfold, hbelow⟩ :=
          foldlM_eq snapshot ih (snapshot.directSubtypes name) true hentered hvalid hdeeper
        have hkept := hbelow.kept hentered hvalid
        have hvisiting : inner.visiting = id :: guard.visiting := by
          rw [hkept.visiting, hguard]
        have hleave := Guard.leave_newest hvisiting
        refine ⟨complete, _, ?_, .visit hcomplete henter hbelow hleave⟩
        refine (bind_eq_of_ok happroach).trans ?_
        refine (bind_eq_of_ok hfold).trans ?_
        refine (bind_eq_of_ok (leave_eq_of_ok hleave)).trans ?_
        have hlt : id < filled.graph.size :=
          hkept.sound.wellFormed.lt_size (hkept.extend.lookup hid)
        cases complete with
        | false => rfl
        | true =>
          exact bind_eq_of_ok
            (onCache_eq_of_ok (Cache.onGraph_eq_of_ok (TypeGraph.markComplete_eq hlt)))

/-- A walk that was cut short leaves its node incomplete. -/
theorem completeAt_of_walk_eq_false {snapshot : Snapshot} {room : Nat} {name : String} {id : NodeId}
    {walk later : Walk} (hs : walk.Sound) (hid : walk.graph.lookup name = some id)
    (hroom : walk.guard.limits.maxDepth ≤ walk.guard.depth + room)
    (h : Walk.walk snapshot room name id walk = .ok false later) :
    later.graph.completeAt id = false := by
  obtain ⟨complete, later', hwalk, hruns⟩ := walk_eq snapshot room hs hid hroom
  obtain ⟨rfl, rfl⟩ := EStateM.Result.ok.inj (h.symm.trans hwalk)
  exact hruns.completeAt_eq_false hs hid

end Runs

end NominalSubtyping.Walk
