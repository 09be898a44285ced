import NominalSubtyping.Cache.Load
import NominalSubtyping.Proofs.Cache.Coverage
import NominalSubtyping.Proofs.Source.Table

/-!
# The runs of a load

What a load can do is said once more as a relation, one rule for each outcome. A cache *takes in* a
snapshot if the type is not complete, the source reports the snapshot, and a walk under a new guard
goes through it; the load ends truncated or loaded as the verdict of that walk is no or yes. On a
well-formed graph every load has a run in the relation, and the only fault with which it can end is
a crash of the source.

## Main definitions

* `Cache.TakesIn` : a reported hierarchy is taken over, in full or in part.
* `Cache.Taken` : what the graph shows afterwards.
* `Cache.Loads` : the runs of a load.

## Main results

* `Cache.TakesIn.taken` : what taking over a snapshot adds to the graph.
* `Cache.load_loads`, `Cache.loads_of_load_eq`, `Cache.Loads.load_eq` : every load of a well-formed
  cache has a run, and does what the run says.
* `Cache.Loads.grows`, `Cache.Loads.wellFormed` : a load loses nothing and keeps the graph
  well-formed.
* `Cache.Loads.isComplete_eq` : the status of a load says whether the type is complete.
-/

open Relation (ReflTransGen)

namespace NominalSubtyping

namespace Cache

open Walk (Closed Walks)

/-- The state in which the walk through the hierarchy reported for `name` begins. -/
def opening (cache : Cache) (name : String) : Walk where
  cache := (cache.withNode name).withQuestion name
  guard := { limits := cache.limits }

/-- The source reports `snapshot` for the type `name`, which is not complete, and a walk leads to
the cache `filled`, with the verdict `complete`. -/
structure TakesIn (source : Source) (name : String) (snapshot : Snapshot) (complete : Bool)
    (cache filled : Cache) : Prop where
  incomplete : cache.graph.isComplete name = false
  reply : source cache.asked name = .found snapshot
  walks : ∃ id guard, (cache.withNode name).graph.lookup name = some id ∧
    Walks snapshot (.node name id) (cache.opening name) complete ⟨filled, guard⟩

/-- The reported hierarchy leads to `other`, which is not complete. -/
def Fresh (snapshot : Snapshot) (name : String) (cache : Cache) (other : String) : Prop :=
  snapshot.table.Reaches name other ∧ cache.graph.isComplete other = false

/-- What the graph shows after a snapshot was taken over with the verdict `complete`: new edges and
new complete nodes are those of fresh names, and a new complete node has all its reported subtypes,
which are complete, or on a cycle with it and cut short. -/
structure Taken (snapshot : Snapshot) (name : String) (complete : Bool) (cache filled : Cache) :
    Prop where
  edge : ∀ {sup sub}, filled.graph.HasEdge sup sub → cache.graph.HasEdge sup sub ∨
    (Fresh snapshot name cache sup ∧ sub ∈ snapshot.directSubtypes sup ∧
      (filled.graph.isComplete sup = true ∨ complete = false))
  fresh : ∀ {sup}, filled.graph.isComplete sup = true →
    cache.graph.isComplete sup = true ∨ Fresh snapshot name cache sup
  covered : ∀ {sup sub}, filled.graph.isComplete sup = true → cache.graph.isComplete sup = false →
    sub ∈ snapshot.directSubtypes sup → filled.graph.HasEdge sup sub ∧
      (filled.graph.isComplete sub = true ∨ (complete = false ∧ filled.graph.LiesBelow sup sub))
  settled : complete = true → filled.graph.isComplete name = true

/-- The runs of a load: the cache before, the outcome, the cache after. -/
inductive Loads (source : Source) (name : String) (cache : Cache) :
    Except Fault LoadStatus → Cache → Prop
  | alreadyComplete (hcomplete : cache.graph.isComplete name = true) :
      Loads source name cache (.ok .alreadyComplete) cache
  | unresolved (hincomplete : cache.graph.isComplete name = false)
      (hreply : source cache.asked name = .unknown) :
      Loads source name cache (.ok .unresolved)
        (((cache.withNode name).withQuestion name).withFailure (.unresolved name))
  | failed {error : LookupError} (hincomplete : cache.graph.isComplete name = false)
      (hreply : source cache.asked name = .failed error) :
      Loads source name cache (.ok .failed)
        (((cache.withNode name).withQuestion name).withFailure (.lookupFailed name error))
  | crashed {message : String} (hincomplete : cache.graph.isComplete name = false)
      (hreply : source cache.asked name = .crashed message) :
      Loads source name cache (.error (.crashed message)) ((cache.withNode name).withQuestion name)
  | truncated {snapshot : Snapshot} {filled : Cache}
      (htaken : TakesIn source name snapshot false cache filled) :
      Loads source name cache (.ok .truncated)
        (filled.withEvent (.truncated name cache.limits.maxDepth))
  | loaded {snapshot : Snapshot} {filled : Cache}
      (htaken : TakesIn source name snapshot true cache filled) :
      Loads source name cache (.ok (.loaded (filled.graph.size - (cache.graph.withNode name).size)))
        (filled.withEvent (.loaded name (filled.graph.size - (cache.graph.withNode name).size)))

variable {source : Source} {name : String} {snapshot : Snapshot} {complete : Bool}
  {cache filled later : Cache} {outcome : Except Fault LoadStatus}

/-! ### Taking over a snapshot -/

theorem sound_opening (h : cache.graph.WellFormed) (name : String) :
    (cache.opening name).Sound where
  wellFormed := wellFormed_withNode h name
  nodup := List.nodup_nil
  depth_eq := rfl
  visiting_lt id hid := by cases hid
  incomplete id hid := by cases hid

theorem grows_opening (cache : Cache) (name : String) :
    cache.Grows ((cache.withNode name).withQuestion name) :=
  (cache.grows_withNode name).trans (grows_withQuestion _ name)

theorem asked_opening (cache : Cache) (name : String) :
    ((cache.withNode name).withQuestion name).asked = name :: cache.asked := by
  rw [withQuestion, asked_withNode]

theorem not_isOpen_opening {other : String} : ¬ (cache.opening name).IsOpen other := by
  rintro ⟨id, hid, -⟩
  cases hid

theorem isComplete_opening (h : cache.graph.WellFormed) {other : String} :
    (cache.opening name).graph.isComplete other = cache.graph.isComplete other := by
  rw [opening, Walk.graph, graph_withQuestion, graph_withNode, TypeGraph.isComplete_withNode h]

theorem hasEdge_opening (h : cache.graph.WellFormed) {sup sub : String} :
    (cache.opening name).graph.HasEdge sup sub ↔ cache.graph.HasEdge sup sub := by
  rw [opening, Walk.graph, graph_withQuestion, graph_withNode, TypeGraph.hasEdge_withNode h]

namespace TakesIn

variable (htaken : TakesIn source name snapshot complete cache filled)
  (h : cache.graph.WellFormed)

include htaken h

theorem kept : ∃ guard, (cache.opening name).Kept ⟨filled, guard⟩ := by
  obtain ⟨id, guard, hid, hwalks⟩ := htaken.walks
  exact ⟨guard, hwalks.kept (sound_opening h name) hid⟩

theorem wellFormed : filled.graph.WellFormed := by
  obtain ⟨guard, hkept⟩ := htaken.kept h
  exact hkept.sound.wellFormed

theorem asked_eq : filled.asked = name :: cache.asked := by
  obtain ⟨guard, hkept⟩ := htaken.kept h
  exact hkept.asked.trans (asked_opening cache name)

theorem grows : cache.Grows filled := by
  obtain ⟨guard, hkept⟩ := htaken.kept h
  have hopening := cache.grows_opening name
  refine ⟨hopening.extend.trans hkept.extend, hkept.cacheLimits.trans hopening.limits_eq, ?_,
    hopening.journal.trans hkept.journal⟩
  simp [htaken.asked_eq h]

/-- What the graph shows after a snapshot was taken over. -/
theorem taken : Taken snapshot name complete cache filled := by
  obtain ⟨id, guard, hid, hwalks⟩ := htaken.walks
  have hsound := sound_opening h name
  have hexceeded : guard.exceeded = !complete := hwalks.exceeded_eq.trans (Bool.false_or _)
  -- The walk reaches what the snapshot leads to, and goes down from nodes that were incomplete.
  have hclosed : Closed snapshot (cache.opening name) (Fresh snapshot name cache) := by
    intro sup sub hsup hsub hincomplete
    rw [isComplete_opening h] at hincomplete
    exact ⟨hsup.1.tail hsub, hincomplete⟩
  have horigin := hwalks.origin hsound hid (fun _ => ⟨ReflTransGen.refl, htaken.incomplete⟩) hclosed
  obtain ⟨hsettled, hcovers⟩ := hwalks.coverage hsound hid fun other ho =>
    absurd ho not_isOpen_opening
  refine ⟨fun {sup sub} he => ?_, fun {sup} hc => ?_, fun {sup sub} hc hsup hsub => ?_,
    fun hc => ?_⟩
  · refine (horigin.edge he).imp (hasEdge_opening h).1 ?_
    rintro ⟨hsup, hsub, hc | ho | hex⟩
    · exact ⟨hsup, hsub, Or.inl hc⟩
    · exact absurd ho not_isOpen_opening
    · rw [hexceeded, Bool.not_eq_true'] at hex
      exact ⟨hsup, hsub, Or.inr hex⟩
  · exact (horigin.complete hc).imp_left (isComplete_opening h).symm.trans
  · have hopening : ¬ (cache.opening name).graph.isComplete sup = true := by
      rw [isComplete_opening h, hsup]
      exact Bool.false_ne_true
    obtain ⟨hedge, hwhy⟩ := (hcovers sup hc).resolve_left hopening sub hsub
    refine ⟨hedge, hwhy.imp_right ?_⟩
    rintro ⟨ho | hex, hbelow⟩
    · exact absurd ho not_isOpen_opening
    · rw [hexceeded, Bool.not_eq_true'] at hex
      exact ⟨hex, hbelow⟩
  · exact (hsettled hc).resolve_right not_isOpen_opening

/-- The verdict of the walk says whether the type is complete afterwards. -/
theorem isComplete_eq : filled.graph.isComplete name = complete := by
  cases complete with
  | true => exact (htaken.taken h).settled rfl
  | false =>
    obtain ⟨id, guard, hid, hwalks⟩ := htaken.walks
    have hsound := sound_opening h name
    have hkept := hwalks.kept hsound hid
    exact TypeGraph.isComplete_eq_false (hkept.extend.lookup hid)
      (hwalks.completeAt_eq_false hsound hid)

end TakesIn

/-! ### Every load has a run -/

theorem guarded_eq_of_ok {α : Type} {action : WalkM α} {value : α} {guard : Guard NodeId}
    (h : action ⟨cache, { limits := cache.limits }⟩ = .ok value ⟨filled, guard⟩) :
    guarded action cache = .ok (value, guard) filled := by
  rw [guarded, h]

/-- Taking over a snapshot ends with the verdict of the walk. -/
theorem incorporate_eq (cache : Cache) {id : NodeId} {guard : Guard NodeId}
    (hwalk : Walk.walk snapshot cache.limits.maxDepth name id ⟨cache, { limits := cache.limits }⟩ =
      .ok complete ⟨filled, guard⟩)
    (hvisiting : guard.visiting = []) (hexceeded : guard.exceeded = !complete) :
    incorporate name id snapshot cache =
      if complete then
        .ok (.loaded (filled.graph.size - cache.graph.size))
          (filled.withEvent (.loaded name (filled.graph.size - cache.graph.size)))
      else .ok .truncated (filled.withEvent (.truncated name cache.limits.maxDepth)) := by
  refine (bind_eq_of_ok (guarded_eq_of_ok hwalk)).trans ?_
  have hclose : (MonadExcept.ofExcept guard.close : CacheM Unit) filled = .ok () filled := by
    rw [(Guard.close_eq_ok_iff guard).2 hvisiting]
    rfl
  refine (bind_eq_of_ok hclose).trans ?_
  rw [hexceeded]
  cases complete <;> rfl

/-- A name that has just got its node is complete at that node if it was complete before. -/
theorem completeAt_withNode (h : cache.graph.WellFormed) {id : NodeId}
    (hid : (cache.withNode name).graph.lookup name = some id) :
    (cache.withNode name).graph.completeAt id = cache.graph.isComplete name := by
  have hkeeps : (cache.withNode name).graph.isComplete name = cache.graph.isComplete name := by
    rw [graph_withNode, TypeGraph.isComplete_withNode h]
  rw [← hkeeps, Bool.eq_iff_iff, TypeGraph.isComplete_eq_true_iff]
  refine ⟨fun hc => ⟨id, hid, hc⟩, ?_⟩
  rintro ⟨other, hother, hc⟩
  rwa [Option.some.inj (hid.symm.trans hother)]

/-- What a load does after it has looked up the node, if the name is complete and if it is not. -/
theorem load_eq (h : cache.graph.WellFormed) (source : Source) (name : String) :
    ∃ id, (cache.withNode name).graph.lookup name = some id ∧ ∃ next : Reply → CacheM LoadStatus,
      load source name cache = (if cache.graph.isComplete name then pure .alreadyComplete
        else ask source name >>= next) (cache.withNode name) ∧
      (∀ snapshot, next (.found snapshot) = incorporate name id snapshot) ∧
      next .unknown = (fail (.unresolved name) >>= fun _ => pure .unresolved) ∧
      (∀ error, next (.failed error) =
        (fail (.lookupFailed name error) >>= fun _ => pure .failed)) ∧
      ∀ message, next (.crashed message) = throw (.crashed message) := by
  obtain ⟨id, hid, hintern⟩ := cache.intern_eq name
  have hwf := wellFormed_withNode h name
  obtain ⟨node, hnode, hcomplete⟩ := TypeGraph.node_eq_ok (hwf.lt_size hid)
  rw [← completeAt_withNode h hid, ← hcomplete]
  refine ⟨id, hid, _, (bind_eq_of_ok hintern).trans (bind_eq_of_ok (inspect_eq_of_ok _ hnode)), ?_⟩
  exact ⟨fun _ => rfl, rfl, fun _ => rfl, fun _ => rfl⟩

theorem load_of_isComplete (h : cache.graph.WellFormed) (source : Source)
    (hcomplete : cache.graph.isComplete name = true) :
    load source name cache = .ok .alreadyComplete cache := by
  obtain ⟨id, -, next, hload, -⟩ := load_eq h source name
  rw [hload, if_pos hcomplete, withNode_of_isComplete hcomplete]
  rfl

/-- A snapshot that is reported for a type that is not complete is taken over, in full or in
part. -/
theorem exists_takesIn (h : cache.graph.WellFormed)
    (hincomplete : cache.graph.isComplete name = false)
    (hreply : source cache.asked name = .found snapshot) :
    ∃ complete filled, TakesIn source name snapshot complete cache filled := by
  obtain ⟨id, hid, -⟩ := cache.intern_eq name
  obtain ⟨complete, ⟨filled, guard⟩, -, hwalks⟩ := Walk.walk_eq snapshot cache.limits.maxDepth
    (sound_opening h name) hid (Nat.le_add_left _ _)
  exact ⟨complete, filled, hincomplete, hreply, id, guard, hid, hwalks⟩

/-- Taking over a snapshot is what the load does with it. -/
theorem TakesIn.incorporate_eq (htaken : TakesIn source name snapshot complete cache filled)
    (h : cache.graph.WellFormed) {id : NodeId}
    (hid : (cache.withNode name).graph.lookup name = some id) :
    incorporate name id snapshot ((cache.withNode name).withQuestion name) =
      if complete then
        .ok (.loaded (filled.graph.size - (cache.graph.withNode name).size))
          (filled.withEvent (.loaded name (filled.graph.size - (cache.graph.withNode name).size)))
      else .ok .truncated (filled.withEvent (.truncated name cache.limits.maxDepth)) := by
  obtain ⟨id', guard, hid', hwalks⟩ := htaken.walks
  obtain rfl := Option.some.inj (hid.symm.trans hid')
  have hlimits := cache.limits_withNode name
  have hsound := sound_opening h name
  obtain ⟨complete', later, hwalk, hwalks'⟩ :=
    Walk.walk_eq snapshot cache.limits.maxDepth hsound hid (Nat.le_add_left _ _)
  obtain ⟨rfl, rfl⟩ := hwalks.functional hwalks'
  have hexceeded : guard.exceeded = !complete := hwalks.exceeded_eq.trans (Bool.false_or _)
  have hvisiting : guard.visiting = [] := (hwalks.kept hsound hid).visiting
  rw [opening, ← hlimits] at hwalk
  have hend := Cache.incorporate_eq ((cache.withNode name).withQuestion name) hwalk hvisiting
    hexceeded
  rw [graph_withQuestion, graph_withNode] at hend
  rw [← hlimits]
  exact hend

/-- A load does what its run says. -/
theorem Loads.load_eq (hload : Loads source name cache outcome later)
    (h : cache.graph.WellFormed) : load source name cache = ending outcome later := by
  obtain ⟨id, hid, next, hnext, hfound, hunknown, hfailed, hcrashed⟩ := Cache.load_eq h source name
  have hasks (hincomplete : cache.graph.isComplete name = false) : load source name cache =
      next (source cache.asked name) ((cache.withNode name).withQuestion name) := by
    rw [hnext, if_neg (Bool.eq_false_iff.1 hincomplete), bind_eq_of_ok (ask_eq source name _),
      asked_withNode]
  cases hload with
  | alreadyComplete hcomplete => exact load_of_isComplete h source hcomplete
  | unresolved hincomplete hreply =>
    rw [hasks hincomplete, hreply, hunknown]
    rfl
  | failed hincomplete hreply =>
    rw [hasks hincomplete, hreply, hfailed]
    rfl
  | crashed hincomplete hreply =>
    rw [hasks hincomplete, hreply, hcrashed]
    rfl
  | truncated htaken =>
    rw [hasks htaken.incomplete, htaken.reply, hfound, htaken.incorporate_eq h hid]
    rfl
  | loaded htaken =>
    rw [hasks htaken.incomplete, htaken.reply, hfound, htaken.incorporate_eq h hid]
    rfl

/-- Every load of a well-formed cache has a run. -/
theorem load_loads (h : cache.graph.WellFormed) (source : Source) (name : String) :
    ∃ outcome later, load source name cache = ending outcome later ∧
      Loads source name cache outcome later := by
  have hruns : ∃ outcome later, Loads source name cache outcome later := by
    cases hc : cache.graph.isComplete name with
    | true => exact ⟨_, _, .alreadyComplete hc⟩
    | false =>
      cases hreply : source cache.asked name with
      | unknown => exact ⟨_, _, .unresolved hc hreply⟩
      | failed error => exact ⟨_, _, .failed hc hreply⟩
      | crashed message => exact ⟨_, _, .crashed hc hreply⟩
      | found snapshot =>
        obtain ⟨complete, filled, htaken⟩ := exists_takesIn h hc hreply
        cases complete with
        | false => exact ⟨_, _, .truncated htaken⟩
        | true => exact ⟨_, _, .loaded htaken⟩
  obtain ⟨outcome, later, hloads⟩ := hruns
  exact ⟨outcome, later, hloads.load_eq h, hloads⟩

/-- A load that ends in some way has a run that ends in that way. -/
theorem loads_of_load_eq (h : cache.graph.WellFormed)
    (hload : load source name cache = ending outcome later) :
    Loads source name cache outcome later := by
  obtain ⟨outcome', later', hload', hloads⟩ := load_loads h source name
  obtain ⟨rfl, rfl⟩ := ending_inj (hload.symm.trans hload')
  exact hloads

namespace Loads

variable (hload : Loads source name cache outcome later) (h : cache.graph.WellFormed)

include hload h

/-- A load loses nothing. -/
theorem grows : cache.Grows later := by
  have hopening := cache.grows_opening name
  cases hload with
  | alreadyComplete => exact .refl _
  | unresolved => exact hopening.trans (grows_withFailure _ _)
  | failed => exact hopening.trans (grows_withFailure _ _)
  | crashed => exact hopening
  | truncated htaken => exact (htaken.grows h).trans (grows_withEvent _ _)
  | loaded htaken => exact (htaken.grows h).trans (grows_withEvent _ _)

theorem wellFormed : later.graph.WellFormed := by
  have hnode := wellFormed_withNode h name
  cases hload with
  | alreadyComplete => exact h
  | unresolved => exact hnode
  | failed => exact hnode
  | crashed => exact hnode
  | truncated htaken => exact htaken.wellFormed h
  | loaded htaken => exact htaken.wellFormed h

/-- A type that is not complete is asked for. -/
theorem asked_eq (hincomplete : cache.graph.isComplete name = false) :
    later.asked = name :: cache.asked := by
  have hasked := asked_opening cache name
  cases hload with
  | alreadyComplete hcomplete =>
    exact absurd (hincomplete.symm.trans hcomplete) Bool.false_ne_true
  | unresolved => exact hasked
  | failed => exact hasked
  | crashed => exact hasked
  | truncated htaken => exact htaken.asked_eq h
  | loaded htaken => exact htaken.asked_eq h

/-- A load asks the source for a name that is not complete, and only for such a name. -/
theorem asked_eq_ite :
    later.asked = if cache.graph.isComplete name then cache.asked else name :: cache.asked := by
  split
  · rename_i hc
    have hload' : load source name cache = ending (.ok .alreadyComplete) cache :=
      load_of_isComplete h source hc
    rw [(ending_inj ((hload.load_eq h).symm.trans hload')).2]
  · rename_i hc
    exact hload.asked_eq h (Bool.eq_false_iff.2 hc)

end Loads

/-- The status of a load says whether the type is complete afterwards. -/
theorem Loads.isComplete_eq {status : LoadStatus}
    (hload : Loads source name cache (.ok status) later)
    (h : cache.graph.WellFormed) : later.graph.isComplete name = status.isComplete := by
  have hnode : (cache.graph.withNode name).isComplete name = cache.graph.isComplete name :=
    TypeGraph.isComplete_withNode h
  cases hload with
  | alreadyComplete hcomplete => exact hcomplete
  | unresolved hincomplete =>
    rw [graph_withFailure, graph_withQuestion, graph_withNode, hnode]
    exact hincomplete
  | failed hincomplete =>
    rw [graph_withFailure, graph_withQuestion, graph_withNode, hnode]
    exact hincomplete
  | truncated htaken => exact htaken.isComplete_eq h
  | loaded htaken => exact htaken.isComplete_eq h

end Cache

end NominalSubtyping
