import NominalSubtyping.Proofs.Cache.Steps
import NominalSubtyping.Proofs.Source.Table

/-!
# What a complete node promises

A complete node is not loaded again, so everything below it should be complete as well. This holds
as long as no load is cut short, whatever the source reports. A load that a limit cuts short can
break it, and this module says how far.

A node that is met again while it is being walked counts as complete. If the walk of that node is
cut short later on, a node further down has been marked complete on the strength of a promise that
is not kept; the two nodes then lie on a cycle. The edges that a truncated load leaves behind are
the other way: if the source *takes back* such an edge, and no longer lists it in a later report by
which the supertype becomes complete, then the subtype is never walked again.

Both ways speak of the loads on the way to the present cache and of their order. The way is a path
of steps from the new cache, and a load on it is a *takeover*.

## Main definitions

* `Cache.Reported`, `Cache.Lists` : what the source said about the direct subtypes of a type.
* `Cache.Takeover` : a load on the way from one cache to another.
* `Cache.CutShort`, `Cache.TakenBack` : a takeover that was cut short on a report of an edge, and
  one whose report leaves the edge out.
* `Cache.Excused` : why the direct subtype of a complete node may be incomplete.
* `Cache.Honest` : what is known of edges and of complete nodes.

## Main results

* `Cache.Honest.step` : every step keeps a cache honest.
-/

open Relation (ReflTransGen)

namespace NominalSubtyping.Cache

variable {source : Source} {first before after cache later filled : Cache}
  {name sup sub : String} {snapshot : Snapshot} {complete : Bool} {status : LoadStatus}

/-- The source reported `snapshot` when it was asked for `name`. -/
def Reported (source : Source) (cache : Cache) (name : String) (snapshot : Snapshot) : Prop :=
  ∃ earlier, (name :: earlier) <:+ cache.asked ∧ source earlier name = .found snapshot

/-- The source reported a hierarchy that leads to `sup` and lists `sub` directly below it. -/
def Lists (source : Source) (cache : Cache) (sup sub : String) : Prop :=
  ∃ name snapshot, Reported source cache name snapshot ∧ snapshot.table.Reaches name sup ∧
    sub ∈ snapshot.directSubtypes sup

theorem Grows.lists (h : cache.Grows later) (hl : Lists source cache sup sub) :
    Lists source later sup sub := by
  obtain ⟨name, snapshot, ⟨earlier, hasked, hreply⟩, hreaches, hmem⟩ := hl
  exact ⟨name, snapshot, ⟨earlier, hasked.trans h.asked, hreply⟩, hreaches, hmem⟩

/-! ### Loads on the way -/

/-- On the way from `first` to `last` the source reported `snapshot` for `name`, and the load of it
led from `before` to `after` and ended with `status`. -/
structure Takeover (source : Source) (first : Cache) (name : String) (snapshot : Snapshot)
    (status : LoadStatus) (before after last : Cache) : Prop where
  earlier : ReflTransGen (Step source) first before
  reply : source before.asked name = .found snapshot
  load : Cache.load source name before = .ok status after
  later : ReflTransGen (Step source) after last

/-- `sup` became complete, and `sub` was not complete by then. -/
structure PassesOver (before after : Cache) (sup sub : String) : Prop where
  sup_before : before.graph.isComplete sup = false
  sup_after : after.graph.isComplete sup = true
  sub_after : after.graph.isComplete sub = false

/-- On the way to the cache the load from `before` to `after` was cut short, on a report that leads
to `sup` and lists `sub` directly below it. -/
def CutShort (source : Source) (cache before after : Cache) (sup sub : String) : Prop :=
  ∃ name snapshot, Takeover source (new cache.limits) name snapshot .truncated before after cache ∧
    snapshot.table.Reaches name sup ∧ sub ∈ snapshot.directSubtypes sup

/-- Between `first` and the cache a load passed over `sub` when it made `sup` complete: its report
leads to `sup` and does not list `sub` directly below it. -/
def TakenBack (source : Source) (first cache : Cache) (sup sub : String) : Prop :=
  ∃ name snapshot status before after,
    Takeover source first name snapshot status before after cache ∧
    snapshot.table.Reaches name sup ∧ sub ∉ snapshot.directSubtypes sup ∧
    PassesOver before after sup sub

/-- A load was cut short on a report of the edge. Either this load itself passed over the subtype,
and the edge lies on a cycle, or the edge was taken back afterwards. -/
def Excused (source : Source) (cache : Cache) (sup sub : String) : Prop :=
  ∃ before after, CutShort source cache before after sup sub ∧
    (PassesOver before after sup sub ∧ after.graph.LiesBelow sup sub ∨
      TakenBack source after cache sup sub)

theorem Takeover.step (h : Takeover source first name snapshot status before after cache)
    (hstep : Step source cache later) :
    Takeover source first name snapshot status before after later :=
  { h with later := h.later.tail hstep }

/-- What was cut short on the way to a cache was cut short on the way to the next one. -/
theorem CutShort.step (h : CutShort source cache before after sup sub)
    (hstep : Step source cache later) (hlimits : later.limits = cache.limits) :
    CutShort source later before after sup sub := by
  obtain ⟨name, snapshot, hcut, hlisted⟩ := h
  rw [← hlimits] at hcut
  exact ⟨name, snapshot, hcut.step hstep, hlisted⟩

theorem Excused.step (h : Excused source cache sup sub) (hstep : Step source cache later)
    (hlimits : later.limits = cache.limits) : Excused source later sup sub := by
  obtain ⟨before, after, hcut, hwhy⟩ := h
  refine ⟨before, after, hcut.step hstep hlimits, hwhy.imp_right ?_⟩
  rintro ⟨name, snapshot, status, before', after', hback, homitted⟩
  exact ⟨name, snapshot, status, before', after', hback.step hstep, homitted⟩

/-! ### Honest caches -/

/-- Steps have led to the cache. Every edge is a widening or was reported, and it leads down from a
complete node unless a load was cut short on a report of it; the direct subtypes of complete nodes
are complete, or there is an excuse. -/
structure Honest (source : Source) (cache : Cache) : Prop where
  path : ReflTransGen (Step source) (new cache.limits) cache
  primitive : ∀ {name}, isPrimitive name = true → cache.graph.isComplete name = true
  edge : ∀ {sup sub}, cache.graph.HasEdge sup sub →
    Primitive.Widens sub sup ∨ Lists source cache sup sub
  cut : ∀ {sup sub}, cache.graph.HasEdge sup sub → cache.graph.isComplete sup = true ∨
    ∃ before after, CutShort source cache before after sup sub
  honest : ∀ {sup sub}, cache.graph.isComplete sup = true → cache.graph.HasEdge sup sub →
    cache.graph.isComplete sub = true ∨ Excused source cache sup sub

theorem honest_new (source : Source) (limits : Limits) : Honest source (new limits) where
  path := .refl
  primitive hp := by
    rw [graph_new, TypeGraph.adds_primitives.isComplete_iff]
    exact Or.inr hp
  edge he := by
    rw [graph_new, TypeGraph.adds_primitives.hasEdge_iff] at he
    exact Or.inl (he.resolve_left TypeGraph.not_hasEdge_empty)
  cut he := by
    rw [graph_new, TypeGraph.adds_primitives.hasEdge_iff] at he
    rw [graph_new, TypeGraph.adds_primitives.isComplete_iff]
    exact Or.inl (Or.inr (he.resolve_left TypeGraph.not_hasEdge_empty).isPrimitive.2)
  honest _ he := by
    rw [graph_new, TypeGraph.adds_primitives.hasEdge_iff] at he
    rw [graph_new, TypeGraph.adds_primitives.isComplete_iff]
    exact Or.inl (Or.inr (he.resolve_left TypeGraph.not_hasEdge_empty).isPrimitive.1)

namespace Honest

theorem wellFormed (h : Honest source cache) : cache.graph.WellFormed :=
  wellFormed_of_path h.path (wellFormed_new _)

/-- Steps have led to the next cache as well. -/
theorem path_step (h : Honest source cache) (hstep : Step source cache later) :
    ReflTransGen (Step source) (new later.limits) later := by
  rw [(hstep.grows h.wellFormed).limits_eq]
  exact h.path.tail hstep

/-- What is known of an edge stays known. -/
theorem cut_step (h : Honest source cache) (hstep : Step source cache later)
    (he : cache.graph.HasEdge sup sub) : later.graph.isComplete sup = true ∨
      ∃ before after, CutShort source later before after sup sub := by
  have hgrows := hstep.grows h.wellFormed
  refine (h.cut he).imp hgrows.extend.isComplete ?_
  rintro ⟨before, after, hcut⟩
  exact ⟨before, after, hcut.step hstep hgrows.limits_eq⟩

/-- What is known below a complete node stays known. -/
theorem honest_step (h : Honest source cache) (hstep : Step source cache later)
    (hc : cache.graph.isComplete sup = true) (he : cache.graph.HasEdge sup sub) :
    later.graph.isComplete sub = true ∨ Excused source later sup sub := by
  have hgrows := hstep.grows h.wellFormed
  exact (h.honest hc he).imp hgrows.extend.isComplete fun hx => hx.step hstep hgrows.limits_eq

/-- A step without new edges and complete nodes keeps a cache honest. -/
theorem grow (h : Honest source cache) (hstep : Step source cache later)
    (hedge : ∀ {sup sub}, later.graph.HasEdge sup sub → cache.graph.HasEdge sup sub)
    (hcomplete : ∀ {name}, later.graph.isComplete name = true →
      cache.graph.isComplete name = true) : Honest source later where
  path := h.path_step hstep
  primitive hp := (hstep.grows h.wellFormed).extend.isComplete (h.primitive hp)
  edge he := (h.edge (hedge he)).imp_right (hstep.grows h.wellFormed).lists
  cut he := h.cut_step hstep (hedge he)
  honest hc he := h.honest_step hstep (hcomplete hc) (hedge he)

/-- A load that takes over nothing keeps a cache honest. -/
theorem opening (h : Honest source cache) (hstep : Step source cache later)
    (hgraph : later.graph = (cache.opening name).graph) : Honest source later := by
  refine h.grow hstep (fun he => ?_) fun hc => ?_
  · rwa [hgraph, hasEdge_opening h.wellFormed] at he
  · rwa [hgraph, isComplete_opening h.wellFormed] at hc

theorem withNode (h : Honest source cache) (name : String) :
    Honest source (cache.withNode name) := by
  refine h.grow (.node name) (fun he => ?_) fun hc => ?_
  · rwa [graph_withNode, TypeGraph.hasEdge_withNode h.wellFormed] at he
  · rwa [graph_withNode, TypeGraph.isComplete_withNode h.wellFormed] at hc

section TakesIn

variable {event : Event} (h : Honest source cache)
  (htaken : TakesIn source name snapshot complete cache filled)
  (hload : Loads source name cache (.ok status) (filled.withEvent event))

include h htaken hload

/-- A load that takes over a snapshot is a takeover from wherever the cache comes from. -/
theorem takeover (hpath : ReflTransGen (Step source) first cache) :
    Takeover source first name snapshot status cache (filled.withEvent event)
      (filled.withEvent event) :=
  ⟨hpath, htaken.reply, hload.load_eq h.wellFormed, .refl⟩

theorem cutShort (hstatus : status = .truncated) (hreaches : snapshot.table.Reaches name sup)
    (hlisted : sub ∈ snapshot.directSubtypes sup) :
    CutShort source (filled.withEvent event) cache (filled.withEvent event) sup sub := by
  subst hstatus
  refine ⟨name, snapshot, h.takeover htaken hload ?_, hreaches, hlisted⟩
  rw [(hload.grows h.wellFormed).limits_eq]
  exact h.path

/-- A load that makes a node complete and passes over a direct subtype has an excuse. -/
theorem excused (hstatus : complete = false → status = .truncated)
    (hfresh : Fresh snapshot name cache sup)
    (hover : PassesOver cache (filled.withEvent event) sup sub)
    (he : filled.graph.HasEdge sup sub) : Excused source (filled.withEvent event) sup sub := by
  have htakes := htaken.taken h.wellFormed
  by_cases hsub : sub ∈ snapshot.directSubtypes sup
  · obtain ⟨-, hwhy⟩ := htakes.covered hover.sup_after hfresh.2 hsub
    obtain ⟨hcut, hbelow⟩ := hwhy.resolve_left (Bool.eq_false_iff.1 hover.sub_after)
    exact ⟨_, _, h.cutShort htaken hload (hstatus hcut) hfresh.1 hsub, Or.inl ⟨hover, hbelow⟩⟩
  · -- The edge is left over from an earlier load, and that load was cut short.
    have hleft : cache.graph.HasEdge sup sub :=
      (htakes.edge he).resolve_right fun ⟨_, hmem, _⟩ => hsub hmem
    obtain ⟨before, after, hcut⟩ := (h.cut hleft).resolve_left (Bool.eq_false_iff.1 hfresh.2)
    have hlimits := (hload.grows h.wellFormed).limits_eq
    refine ⟨before, after, hcut.step (.load hload) hlimits, Or.inr ?_⟩
    obtain ⟨_, _, hbetween, -⟩ := hcut
    exact ⟨name, snapshot, status, _, _, h.takeover htaken hload hbetween.later, hfresh.1, hsub,
      hover⟩

/-- Taking over a snapshot keeps a cache honest. -/
theorem takesIn (hstatus : complete = false → status = .truncated) :
    Honest source (filled.withEvent event) := by
  have hwf := h.wellFormed
  have htakes := htaken.taken hwf
  have hstep : Step source cache (filled.withEvent event) := .load hload
  have hgrows := hload.grows hwf
  refine ⟨h.path_step hstep, fun hp => hgrows.extend.isComplete (h.primitive hp),
    fun {sup sub} he => ?_, fun {sup sub} he => ?_, fun {sup sub} hc he => ?_⟩
  · rcases htakes.edge he with he | ⟨hsup, hsub, -⟩
    · exact (h.edge he).imp_right hgrows.lists
    · have hasked : name :: cache.asked <:+ (filled.withEvent event).asked := by
        simp [withEvent, htaken.asked_eq hwf]
      exact Or.inr ⟨name, snapshot, ⟨cache.asked, hasked, htaken.reply⟩, hsup.1, hsub⟩
  · rcases htakes.edge he with he | ⟨hsup, hsub, hwhy⟩
    · exact h.cut_step hstep he
    · exact hwhy.imp_right fun hcut =>
        ⟨_, _, h.cutShort htaken hload (hstatus hcut) hsup.1 hsub⟩
  · rcases htakes.fresh hc with hbefore | hfresh
    · -- A node that was complete has no new edges.
      rcases htakes.edge he with he | ⟨hsup, -, -⟩
      · exact h.honest_step hstep hbefore he
      · exact absurd (hsup.2.symm.trans hbefore) Bool.false_ne_true
    · rw [or_iff_not_imp_left, Bool.not_eq_true]
      intro hincomplete
      exact h.excused htaken hload hstatus hfresh ⟨hfresh.2, hc, hincomplete⟩ he

end TakesIn

/-- Every step keeps a cache honest. -/
theorem step (h : Honest source cache) (hstep : Step source cache later) :
    Honest source later := by
  cases hstep with
  | node name => exact h.withNode name
  | event hchannel => exact h.grow (.event hchannel) (fun he => he) fun hc => hc
  | load hload =>
    have hstep := Step.load hload
    cases hload with
    | alreadyComplete => exact h
    | unresolved => exact h.opening hstep rfl
    | failed => exact h.opening hstep rfl
    | crashed => exact h.opening hstep rfl
    | truncated htaken => exact h.takesIn htaken (.truncated htaken) fun _ => rfl
    | loaded htaken => exact h.takesIn htaken (.loaded htaken) fun hc => (by cases hc)

/-- Below a complete node everything is complete, if no edge there has an excuse. -/
theorem isComplete_of_liesBelow (h : Honest source cache)
    (hexcuse : ∀ sup sub, cache.graph.LiesBelow sup name → cache.graph.HasEdge sup sub →
      ¬ Excused source cache sup sub)
    (hc : cache.graph.isComplete name = true) (hb : cache.graph.LiesBelow sub name) :
    cache.graph.isComplete sub = true := by
  induction hb using ReflTransGen.head_induction_on with
  | refl => exact hc
  | head hedge hbelow ih => exact (h.honest ih hedge).resolve_right (hexcuse _ _ hbelow hedge)

end Honest

end NominalSubtyping.Cache
