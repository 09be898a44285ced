import NominalSubtyping.Proofs.Cache.Frozen

/-!
# The loads behind a cache

The *history* of a cache lists the loads by which it came about. In between, names got nodes and
events that are not about the graph were recorded; neither of these counts as traffic. Each load of
a history is the load that it says: it carries the cache on which it ran, how it ended and the cache
that it left.

A load asks the source if its type is not complete, and then ends in one of four ways: the lookup
failed, the reported hierarchy was taken over in full or in part, or the source crashed. So the
figures of a cache and the warnings in its journal can be read off its history. A type that was
loaded in full is complete from then on, and no later load asks for it.

## Main definitions

* `Cache.Quiet` : nothing but the graph has changed.
* `Cache.Load`, `Cache.History` : loads and lists of them.
* `Cache.Accounted` : the traffic of a cache is that of its history.

## Main results

* `Cache.exists_history` : every path of steps has a history.
* `Cache.History.accounted` : histories account for the traffic.
* `Cache.History.pairwise` : a type that was loaded in full is not asked for again.
* `Cache.History.loaded_add_primitives_le` : every type that was loaded in full is complete.
-/

open Relation (ReflTransGen)

namespace NominalSubtyping

/-- The lookup of a name was in vain. -/
def Event.isFailure : Event → Bool
  | unresolved .. | lookupFailed .. => true
  | _ => false

/-- Failures are events about the graph. -/
theorem Event.isFailure_eq_false {event : Event} (h : event.channel ≠ .graph) :
    event.isFailure = false := by
  cases event <;> simp_all [isFailure, channel]

/-! ### Walks are not counted -/

namespace Cache

variable {cache middle later : Cache}

/-- Nothing but the graph has changed, and nothing was recorded but new nodes. -/
structure Quiet (cache later : Cache) : Prop where
  lookups_eq : later.lookups = cache.lookups
  failures_eq : later.failures = cache.failures
  countP_eq : ∀ {p : Event → Bool}, (∀ name id, p (.created name id) = false) →
    later.journal.countP p = cache.journal.countP p

theorem Quiet.refl (cache : Cache) : cache.Quiet cache :=
  ⟨rfl, rfl, fun _ => rfl⟩

theorem Quiet.trans (h : cache.Quiet middle) (h' : middle.Quiet later) : cache.Quiet later where
  lookups_eq := h'.lookups_eq.trans h.lookups_eq
  failures_eq := h'.failures_eq.trans h.failures_eq
  countP_eq hp := (h'.countP_eq hp).trans (h.countP_eq hp)

theorem quiet_withNode (cache : Cache) (name : String) : cache.Quiet (cache.withNode name) := by
  rw [withNode]
  split
  · exact .refl cache
  · exact ⟨rfl, rfl, fun hp => List.countP_cons_of_neg (Bool.eq_false_iff.1 (hp _ _))⟩

theorem quiet_withEdge (cache : Cache) (sup sub : NodeId) : cache.Quiet (cache.withEdge sup sub) :=
  ⟨rfl, rfl, fun _ => rfl⟩

theorem quiet_withComplete (cache : Cache) (id : NodeId) : cache.Quiet (cache.withComplete id) :=
  ⟨rfl, rfl, fun _ => rfl⟩

end Cache

/-- A walk changes nothing but the graph. -/
theorem Walk.Walks.quiet {snapshot : Snapshot} {task : Walk.Task} {walk later : Walk}
    {complete : Bool} (h : Walk.Walks snapshot task walk complete later) :
    walk.cache.Quiet later.cache := by
  induction h with
  | complete => exact .refl _
  | refused => exact .refl _
  | cycle => exact .refl _
  | @visit name id cache guard entered complete filled inner after _ _ _ _ ih =>
    cases complete with
    | false => exact ih
    | true => exact ih.trans (filled.quiet_withComplete id)
  | done => exact .refl _
  | @child name id sub subId subs cache guard first middle rest later _ _ _ ihNode ihRest =>
    have hlink := (cache.quiet_withNode sub).trans ((cache.withNode sub).quiet_withEdge id subId)
    exact (hlink.trans ihNode).trans ihRest

namespace Cache

variable {source : Source} {start cache middle later filled : Cache} {name : String}
  {snapshot : Snapshot} {complete : Bool} {outcome : Except Fault LoadStatus}

theorem TakesIn.quiet (htaken : TakesIn source name snapshot complete cache filled) :
    ((cache.withNode name).withQuestion name).Quiet filled := by
  obtain ⟨id, guard, -, hwalks⟩ := htaken.walks
  exact hwalks.quiet

/-! ### How a load ends -/

/-- The source did not know the name, or failed. -/
def endsFailed : Except Fault LoadStatus → Bool
  | .ok .unresolved | .ok .failed => true
  | _ => false

/-- The reported hierarchy was taken over in full. -/
def endsLoaded : Except Fault LoadStatus → Bool
  | .ok (.loaded _) => true
  | _ => false

/-- A limit cut the load short. -/
def endsTruncated : Except Fault LoadStatus → Bool
  | .ok .truncated => true
  | _ => false

/-- The source crashed. -/
def endsCrashed : Except Fault LoadStatus → Bool
  | .error (.crashed _) => true
  | _ => false

/-- What a load adds to the figures of a cache and to the warnings in its journal: the source is
asked if the type is not complete, and there are four ways in which that can end. -/
structure Counted (name : String) (cache : Cache) (outcome : Except Fault LoadStatus)
    (later : Cache) : Prop where
  asked_eq : later.asked =
    if cache.graph.isComplete name then cache.asked else name :: cache.asked
  lookups_eq : later.lookups = cache.lookups + (!cache.graph.isComplete name).toNat
  failures_eq : later.failures = cache.failures + (endsFailed outcome).toNat
  warnings_eq : later.journal.countP Event.isFailure =
    cache.journal.countP Event.isFailure + (endsFailed outcome).toNat
  ends_eq : (!cache.graph.isComplete name).toNat = (endsFailed outcome).toNat +
    (endsLoaded outcome).toNat + (endsTruncated outcome).toNat + (endsCrashed outcome).toNat

/-- The figures once the source has been asked and a walk has gone through its reply. -/
theorem Quiet.figures (h : ((cache.withNode name).withQuestion name).Quiet filled) :
    filled.lookups = cache.lookups + 1 ∧ filled.failures = cache.failures ∧
      filled.journal.countP Event.isFailure = cache.journal.countP Event.isFailure := by
  have hnode := cache.quiet_withNode name
  have hcreated (name : String) (id : NodeId) : (Event.created name id).isFailure = false := rfl
  refine ⟨?_, h.failures_eq.trans hnode.failures_eq, ?_⟩
  · rw [h.lookups_eq, ← hnode.lookups_eq]
    rfl
  · exact (h.countP_eq hcreated).trans (hnode.countP_eq hcreated)

/-- A load that asks the source is counted once. -/
theorem Counted.of_quiet (hincomplete : cache.graph.isComplete name = false)
    (hasked : later.asked =
      if cache.graph.isComplete name then cache.asked else name :: cache.asked)
    (hquiet : ((cache.withNode name).withQuestion name).Quiet filled)
    (hlookups : later.lookups = filled.lookups)
    (hfailures : later.failures = filled.failures + (endsFailed outcome).toNat)
    (hwarnings : later.journal.countP Event.isFailure =
      filled.journal.countP Event.isFailure + (endsFailed outcome).toNat)
    (hends : 1 = (endsFailed outcome).toNat + (endsLoaded outcome).toNat +
      (endsTruncated outcome).toNat + (endsCrashed outcome).toNat) :
    Counted name cache outcome later := by
  obtain ⟨hcount, hcount', hcount''⟩ := hquiet.figures
  refine ⟨hasked, ?_, ?_, ?_, ?_⟩
  · rw [hlookups, hcount, hincomplete]
    rfl
  · rw [hfailures, hcount']
  · rw [hwarnings, hcount'']
  · rw [hincomplete]
    exact hends

/-- Every load is counted. -/
theorem Loads.counted (hload : Loads source name cache outcome later)
    (h : cache.graph.WellFormed) : Counted name cache outcome later := by
  have hasked := hload.asked_eq_ite h
  cases hload with
  | alreadyComplete hcomplete =>
    refine ⟨hasked, ?_, rfl, rfl, ?_⟩ <;> rw [hcomplete] <;> rfl
  | unresolved hincomplete =>
    exact .of_quiet hincomplete hasked (.refl _) rfl rfl (List.countP_cons_of_pos rfl) rfl
  | failed hincomplete =>
    exact .of_quiet hincomplete hasked (.refl _) rfl rfl (List.countP_cons_of_pos rfl) rfl
  | crashed hincomplete => exact .of_quiet hincomplete hasked (.refl _) rfl rfl rfl rfl
  | truncated htaken =>
    exact .of_quiet htaken.incomplete hasked htaken.quiet rfl rfl
      (List.countP_cons_of_neg Bool.false_ne_true) rfl
  | loaded htaken =>
    exact .of_quiet htaken.incomplete hasked htaken.quiet rfl rfl
      (List.countP_cons_of_neg Bool.false_ne_true) rfl

/-- A type that was loaded in full is complete. -/
theorem Loads.isComplete_of_endsLoaded (hload : Loads source name cache outcome later)
    (h : cache.graph.WellFormed) (hends : endsLoaded outcome = true) :
    later.graph.isComplete name = true := by
  cases hload with
  | loaded htaken => exact (htaken.taken h).settled rfl
  | alreadyComplete => cases hends
  | unresolved => cases hends
  | failed => cases hends
  | crashed => cases hends
  | truncated => cases hends

/-! ### Histories -/

/-- A load: the type, the cache before, how the load ended, and the cache after. -/
structure Load (source : Source) where
  name : String
  before : Cache
  outcome : Except Fault LoadStatus
  after : Cache
  runs : load source name before = ending outcome after

/-- Whether the source was asked, which it is if the type is not complete. -/
def Load.asks (load : Load source) : Bool :=
  !load.before.graph.isComplete load.name

/-- A load has a run. -/
theorem Load.loads (load : Load source) (h : load.before.graph.WellFormed) :
    Loads source load.name load.before load.outcome load.after :=
  loads_of_load_eq h load.runs

theorem Load.counted (load : Load source) (h : load.before.graph.WellFormed) :
    Counted load.name load.before load.outcome load.after :=
  (load.loads h).counted h

/-- A load that ended with the type loaded in full asked the source. -/
theorem Load.asks_of_endsLoaded (load : Load source) (h : load.before.graph.WellFormed)
    (hends : endsLoaded load.outcome = true) : load.asks = true := by
  have hcount := (load.counted h).ends_eq
  rw [hends] at hcount
  cases hasks : load.asks with
  | true => rfl
  | false =>
    rw [asks] at hasks
    rw [hasks] at hcount
    simp only [Bool.toNat_false, Bool.toNat_true] at hcount
    omega

/-- The loads by which the cache `start` has become another one, the newest first. Besides, names
got nodes, and events were recorded that are not about the graph. -/
inductive History (source : Source) (start : Cache) : List (Load source) → Cache → Prop
  | refl : History source start [] start
  | node {loads cache} (h : History source start loads cache) (name : String) :
      History source start loads (cache.withNode name)
  | event {loads cache event} (h : History source start loads cache)
      (hevent : Event.channel event ≠ .graph) :
      History source start loads (cache.withEvent event)
  | load {loads} (load : Load source) (h : History source start loads load.before) :
      History source start (load :: loads) load.after

/-- Every path of steps has a history. -/
theorem exists_history (h : ReflTransGen (Step source) start cache)
    (hwf : start.graph.WellFormed) : ∃ loads, History source start loads cache := by
  induction h with
  | refl => exact ⟨[], .refl⟩
  | @tail middle last hpath hstep ih =>
    obtain ⟨loads, hloads⟩ := ih
    cases hstep with
    | node name => exact ⟨loads, hloads.node name⟩
    | event hevent => exact ⟨loads, hloads.event hevent⟩
    | @load name outcome last hload =>
      have hruns := hload.load_eq (wellFormed_of_path hpath hwf)
      exact ⟨_, .load ⟨name, middle, outcome, last, hruns⟩ hloads⟩

namespace History

variable {loads : List (Load source)}

/-- A history is a path of steps. -/
theorem path (h : History source start loads cache) (hwf : start.graph.WellFormed) :
    ReflTransGen (Step source) start cache := by
  induction h with
  | refl => exact .refl
  | node _ name ih => exact ih.tail (.node name)
  | event _ hevent ih => exact ih.tail (.event hevent)
  | load load _ ih => exact ih.tail (.load (load.loads (wellFormed_of_path ih hwf)))

theorem wellFormed (h : History source start loads cache) (hwf : start.graph.WellFormed) :
    cache.graph.WellFormed :=
  wellFormed_of_path (h.path hwf) hwf

end History

theorem countP_cons_toNat {α : Type} (p : α → Bool) (x : α) (xs : List α) :
    (x :: xs).countP p = xs.countP p + (p x).toNat := by
  rw [List.countP_cons]
  cases p x <;> rfl

/-- The traffic of the cache is that of the cache `start` and of the loads in between. -/
structure Accounted (start : Cache) (loads : List (Load source)) (cache : Cache) : Prop where
  asked_eq : cache.asked = (loads.filter Load.asks).map Load.name ++ start.asked
  lookups_eq : cache.lookups = start.lookups + loads.countP Load.asks
  failures_eq : cache.failures = start.failures + loads.countP (endsFailed ·.outcome)
  warnings_eq : cache.journal.countP Event.isFailure =
    start.journal.countP Event.isFailure + loads.countP (endsFailed ·.outcome)
  ends_eq : loads.countP Load.asks = loads.countP (endsFailed ·.outcome) +
    loads.countP (endsLoaded ·.outcome) + loads.countP (endsTruncated ·.outcome) +
    loads.countP (endsCrashed ·.outcome)

namespace Accounted

variable {loads : List (Load source)}

theorem refl (start : Cache) : Accounted start ([] : List (Load source)) start :=
  ⟨rfl, rfl, rfl, rfl, rfl⟩

/-- What is not traffic makes no difference. -/
theorem congr (h : Accounted start loads cache) (hasked : later.asked = cache.asked)
    (hlookups : later.lookups = cache.lookups) (hfailures : later.failures = cache.failures)
    (hwarnings : later.journal.countP Event.isFailure = cache.journal.countP Event.isFailure) :
    Accounted start loads later where
  asked_eq := hasked.trans h.asked_eq
  lookups_eq := hlookups.trans h.lookups_eq
  failures_eq := hfailures.trans h.failures_eq
  warnings_eq := hwarnings.trans h.warnings_eq
  ends_eq := h.ends_eq

/-- A load adds what it is counted for. -/
theorem load (load : Load source) (h : Accounted start loads load.before)
    (hcounted : Counted load.name load.before load.outcome load.after) :
    Accounted start (load :: loads) load.after where
  asked_eq := by
    rw [hcounted.asked_eq, h.asked_eq]
    cases hc : load.before.graph.isComplete load.name with
    | true => rw [List.filter_cons_of_neg (by simp [Load.asks, hc]), if_pos rfl]
    | false =>
      rw [List.filter_cons_of_pos (by simp [Load.asks, hc]), if_neg Bool.false_ne_true]
      rfl
  lookups_eq := by
    rw [hcounted.lookups_eq, h.lookups_eq, countP_cons_toNat, Nat.add_assoc]
    rfl
  failures_eq := by rw [hcounted.failures_eq, h.failures_eq, countP_cons_toNat, Nat.add_assoc]
  warnings_eq := by rw [hcounted.warnings_eq, h.warnings_eq, countP_cons_toNat, Nat.add_assoc]
  ends_eq := by
    have hends := h.ends_eq
    have hone := hcounted.ends_eq
    simp only [countP_cons_toNat]
    rw [← Load.asks] at hone
    omega

end Accounted

namespace History

variable {loads : List (Load source)}

/-- Histories account for the traffic. -/
theorem accounted (h : History source start loads cache) (hwf : start.graph.WellFormed) :
    Accounted start loads cache := by
  induction h with
  | refl => exact .refl start
  | @node loads cache h name ih =>
    have hquiet := cache.quiet_withNode name
    exact ih.congr (cache.asked_withNode name) hquiet.lookups_eq hquiet.failures_eq
      (hquiet.countP_eq fun _ _ => rfl)
  | @event loads cache event h hevent ih =>
    exact ih.congr rfl rfl rfl
      (List.countP_cons_of_neg (Bool.eq_false_iff.1 (Event.isFailure_eq_false hevent)))
  | load load h ih => exact ih.load load (load.counted (h.wellFormed hwf))

/-- A type that was loaded in full is complete from then on. -/
theorem isComplete_of_mem (h : History source start loads cache) (hwf : start.graph.WellFormed)
    {load : Load source} (hmem : load ∈ loads) (hends : endsLoaded load.outcome = true) :
    cache.graph.isComplete load.name = true := by
  induction h with
  | refl => cases hmem
  | @node loads cache h name ih => exact (cache.grows_withNode name).extend.isComplete (ih hmem)
  | event _ _ ih => exact ih hmem
  | load last h ih =>
    have hwf' := h.wellFormed hwf
    have hlast := last.loads hwf'
    rcases List.mem_cons.1 hmem with rfl | hmem
    · exact hlast.isComplete_of_endsLoaded hwf' hends
    · exact (hlast.grows hwf').extend.isComplete (ih hmem)

/-- A type that was loaded in full is not asked for again. -/
theorem pairwise (h : History source start loads cache) (hwf : start.graph.WellFormed) :
    loads.Pairwise fun load older =>
      load.asks = true → older.name = load.name → endsLoaded older.outcome = false := by
  induction h with
  | refl => exact .nil
  | node _ _ ih => exact ih
  | event _ _ ih => exact ih
  | load last h ih =>
    refine .cons (fun older hmem hasks hname => ?_) ih
    refine Bool.eq_false_iff.2 fun hends => ?_
    have hcomplete := h.isComplete_of_mem hwf hmem hends
    rw [hname] at hcomplete
    simp [Load.asks, hcomplete] at hasks

/-- Every load that ended with the type loaded in full asked the source. -/
theorem asks_of_endsLoaded (h : History source start loads cache) (hwf : start.graph.WellFormed)
    {load : Load source} (hmem : load ∈ loads) (hends : endsLoaded load.outcome = true) :
    load.asks = true := by
  induction h with
  | refl => cases hmem
  | node _ _ ih => exact ih hmem
  | event _ _ ih => exact ih hmem
  | load last h ih =>
    rcases List.mem_cons.1 hmem with rfl | hmem
    · exact load.asks_of_endsLoaded (h.wellFormed hwf) hends
    · exact ih hmem

/-- No type is loaded in full twice. -/
theorem nodup_loaded (h : History source start loads cache) (hwf : start.graph.WellFormed) :
    ((loads.filter (endsLoaded ·.outcome)).map Load.name).Nodup := by
  rw [List.Nodup, List.pairwise_map, List.pairwise_filter]
  refine (h.pairwise hwf).imp_of_mem fun {load older} hload holder hnot hends hends' hname => ?_
  have hvain := hnot (h.asks_of_endsLoaded hwf hload hends) hname.symm
  exact Bool.false_ne_true (hvain.symm.trans hends')

/-- If every lookup loads its type in full, no name is asked for twice. -/
theorem nodup_asked (h : History source start loads cache) (hwf : start.graph.WellFormed)
    (hall : ∀ load ∈ loads, load.asks = true → endsLoaded load.outcome = true) :
    ((loads.filter Load.asks).map Load.name).Nodup := by
  rw [List.Nodup, List.pairwise_map, List.pairwise_filter]
  refine (h.pairwise hwf).imp_of_mem fun {load older} _ holder hnot hasks hasks' hname => ?_
  exact Bool.false_ne_true ((hnot hasks hname.symm).symm.trans (hall older holder hasks'))

/-- Every type that was loaded in full is complete, and so are the primitive types. -/
theorem loaded_add_primitives_le {limits : Limits}
    (h : History source (new limits) loads cache) :
    loads.countP (endsLoaded ·.outcome) + Primitive.all.length ≤ cache.graph.completeCount := by
  have hwf := wellFormed_new limits
  have hrooted : cache.Rooted := rooted_of_path (h.path hwf)
  have hasked {name : String} (hname : name ∈ (loads.filter (endsLoaded ·.outcome)).map Load.name) :
      name ∈ cache.asked := by
    obtain ⟨load, hload, rfl⟩ := List.mem_map.1 hname
    obtain ⟨hmem, hends⟩ := List.mem_filter.1 hload
    rw [(h.accounted hwf).asked_eq]
    refine List.mem_append_left _ (List.mem_map_of_mem (List.mem_filter.2 ⟨hmem, ?_⟩))
    exact h.asks_of_endsLoaded hwf hmem hends
  have hnodup : ((loads.filter (endsLoaded ·.outcome)).map Load.name ++
      Primitive.all.map Primitive.name).Nodup := by
    refine List.nodup_append.2 ⟨h.nodup_loaded hwf, by decide, fun name hname other hother => ?_⟩
    rintro rfl
    obtain ⟨type, -, rfl⟩ := List.mem_map.1 hother
    exact Bool.false_ne_true ((hrooted.asked _ (hasked hname)).symm.trans type.isPrimitive_name)
  have hcount := TypeGraph.length_le_completeCount (h.wellFormed hwf) hnodup fun name hname => ?_
  · rwa [List.length_append, List.length_map, List.length_map, ← List.countP_eq_length_filter]
      at hcount
  · rcases List.mem_append.1 hname with hname | hname
    · obtain ⟨load, hload, rfl⟩ := List.mem_map.1 hname
      obtain ⟨hmem, hends⟩ := List.mem_filter.1 hload
      exact h.isComplete_of_mem hwf hmem hends
    · obtain ⟨type, -, rfl⟩ := List.mem_map.1 hname
      exact hrooted.isComplete type.isPrimitive_name

end History

end Cache

end NominalSubtyping
