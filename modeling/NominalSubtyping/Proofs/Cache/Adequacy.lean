import NominalSubtyping.Proofs.Cache.Budget
import NominalSubtyping.Proofs.Cache.Loads
import NominalSubtyping.Source.Script

/-!
# Limits that are large enough

How large the limits of a load have to be can be read off the snapshot that the source reports. The
walk is never deeper than there are names below the name asked for, and it tries to visit a node
once for the name itself and once for each entry among those names. So a depth limit above the
number of names and an attempt limit above the number of entries never cut a load short, however
many chains lead from one name to another and whether or not the hierarchy has cycles.

## Main definitions

* `Cache.Tries` : the number of attempts that a load makes.

## Main results

* `Cache.TakesIn.complete_of_limits` : limits that leave room for a set of names that the snapshot
  does not lead out of cut nothing short.
* `Cache.load_adequate` : adequate limits never truncate, and each entry is tried at most once.
-/

namespace NominalSubtyping.Cache

variable {source : Source} {name : String} {snapshot : Snapshot} {complete : Bool} {count : Nat}
  {cache filled later : Cache}

/-- A load of `name` that leads from `cache` to `later`, while the source reports `snapshot`, tries
to visit a node `count` times: never if the name is complete, and otherwise as often as its walk
does. The guard of the walk has counted these attempts as well, up to the cap. -/
inductive Tries (snapshot : Snapshot) (name : String) (cache later : Cache) : (count : Nat) → Prop
  | complete (hcomplete : cache.graph.isComplete name = true) (hlater : later = cache) :
      Tries snapshot name cache later 0
  | walk {id count complete filled guard event} (hincomplete : cache.graph.isComplete name = false)
      (hid : (cache.withNode name).graph.lookup name = some id)
      (hwalk : Walk.walk snapshot cache.limits.maxDepth name id (cache.opening name) =
        .ok complete ⟨filled, guard⟩)
      (hattempts : Walk.Attempts snapshot (.node name id) (cache.opening name) count complete
        ⟨filled, guard⟩)
      (hcounted : guard.iterations = min count Guard.iterationCap)
      (hlater : later = filled.withEvent event) : Tries snapshot name cache later count

theorem encloses_reachable (snapshot : Snapshot) (name : String) :
    Walk.Encloses snapshot (snapshot.table.reachable name) := by
  intro sup hsup sub hsub
  exact SubtypeTable.mem_reachable.2 ((SubtypeTable.mem_reachable.1 hsup).tail hsub)

theorem mem_reachable_self (snapshot : Snapshot) (name : String) :
    name ∈ snapshot.table.reachable name :=
  SubtypeTable.mem_reachable.2 Relation.ReflTransGen.refl

namespace TakesIn

variable {names : Finset String}

/-- A walk is not cut short if its limits leave room for all names and all entries of a set of names
that the snapshot does not lead out of. -/
theorem complete_of_limits (htaken : TakesIn source name snapshot complete cache filled)
    (h : cache.graph.WellFormed) (hnames : Walk.Encloses snapshot names) (hname : name ∈ names)
    (hdepth : names.card < cache.limits.maxDepth)
    (hiterations : ∑ sup ∈ names, (snapshot.directSubtypes sup).length <
      cache.limits.maxIterations) : complete = true := by
  obtain ⟨id, guard, hid, hwalks⟩ := htaken.walks
  refine hwalks.complete_of_limits (sound_opening h name) hid hnames hname
    (fun other ho => absurd ho not_isOpen_opening) (Nat.zero_le _) hdepth ?_
  have hentries := Walk.outstanding_le snapshot names (cache.opening name)
  simp only [Walk.Task.cost, opening] at hentries ⊢
  omega

/-- The attempts of every walk can be counted. -/
theorem exists_tries (htaken : TakesIn source name snapshot complete cache filled)
    (h : cache.graph.WellFormed) (event : Event) :
    ∃ count, Tries snapshot name cache (filled.withEvent event) count := by
  obtain ⟨id, guard, hid, hwalks⟩ := htaken.walks
  obtain ⟨complete', later, hwalk, hwalks'⟩ := Walk.walk_eq snapshot cache.limits.maxDepth
    (sound_opening h name) hid (Nat.le_add_left _ _)
  obtain ⟨rfl, rfl⟩ := hwalks.functional hwalks'
  obtain ⟨count, hattempts⟩ := hwalks.exists_attempts
  have hcounted := hattempts.iterations_eq (Nat.zero_le _)
  rw [show (cache.opening name).guard.iterations = 0 from rfl, Nat.zero_add] at hcounted
  exact ⟨count, .walk htaken.incomplete hid hwalk hattempts hcounted rfl⟩

/-- A walk that is not cut short tries each entry at most once. -/
theorem tries_le (htaken : TakesIn source name snapshot true cache filled)
    (h : cache.graph.WellFormed) (htries : Tries snapshot name cache later count) :
    count ≤ snapshot.table.reachableEntries name + 1 := by
  obtain ⟨id, guard, hid, hwalks⟩ := htaken.walks
  cases htries with
  | complete => exact Nat.zero_le _
  | walk _ hid' _ hattempts _ _ =>
    obtain rfl := Option.some.inj (hid.symm.trans hid')
    obtain ⟨rfl, -⟩ := hwalks.functional hattempts.walks
    have hpaid := hattempts.count_le rfl (sound_opening h name) hid
      (encloses_reachable snapshot name) (mem_reachable_self snapshot name)
    have hentries : Walk.outstanding snapshot (snapshot.table.reachable name) (cache.opening name) ≤
        snapshot.table.reachableEntries name := Walk.outstanding_le snapshot _ _
    simp only [Walk.Task.cost] at hpaid
    omega

end TakesIn

/-- A load is not cut short if its depth limit is above the number of names that the snapshot leads
to and its attempt limit above the number of entries among them. A load that is not cut short makes
a number of attempts, which its guard has counted, and these are at most one for each of the
entries, and one more. -/
theorem load_adequate (h : cache.graph.WellFormed)
    (hreply : source cache.asked name = .found snapshot) :
    ((snapshot.table.reachable name).card < cache.limits.maxDepth →
        snapshot.table.reachableEntries name < cache.limits.maxIterations →
        ∃ status later, load source name cache = .ok status later ∧
          (status = .alreadyComplete ∨ ∃ added, status = .loaded added)) ∧
      ∀ status later, load source name cache = .ok status later → status ≠ .truncated →
        (∃ count, Tries snapshot name cache later count) ∧
          ∀ count, Tries snapshot name cache later count →
            count ≤ snapshot.table.reachableEntries name + 1 := by
  refine ⟨fun hdepth hiterations => ?_, fun status later hload hstatus => ?_⟩
  · obtain ⟨outcome, later, hload, hloads⟩ := load_loads h source name
    cases hloads with
    | alreadyComplete => exact ⟨_, _, hload, Or.inl rfl⟩
    | unresolved _ hreply' => cases hreply.symm.trans hreply'
    | failed _ hreply' => cases hreply.symm.trans hreply'
    | crashed _ hreply' => cases hreply.symm.trans hreply'
    | truncated htaken =>
      obtain rfl := Reply.found.inj (htaken.reply.symm.trans hreply)
      cases htaken.complete_of_limits h (encloses_reachable _ name)
        (mem_reachable_self _ name) hdepth hiterations
    | loaded => exact ⟨_, _, hload, Or.inr ⟨_, rfl⟩⟩
  · have hloads : Loads source name cache (.ok status) later := loads_of_load_eq h hload
    cases hloads with
    | alreadyComplete hcomplete =>
      refine ⟨⟨0, .complete hcomplete rfl⟩, fun count htries => ?_⟩
      cases htries with
      | complete => exact Nat.zero_le _
      | walk hincomplete => cases hincomplete.symm.trans hcomplete
    | unresolved _ hreply' => cases hreply.symm.trans hreply'
    | failed _ hreply' => cases hreply.symm.trans hreply'
    | truncated => exact absurd rfl hstatus
    | loaded htaken =>
      obtain rfl := Reply.found.inj (htaken.reply.symm.trans hreply)
      exact ⟨htaken.exists_tries h _, fun count htries => htaken.tries_le h htries⟩

/-- Four chains lead from `A` to `G`, from where an edge leads back: seven names and nine entries,
with limits that are just large enough. -/
theorem load_adequate_cycle :
    let edges := [("B", "A"), ("C", "A"), ("D", "B"), ("D", "C"), ("E", "D"), ("F", "D"),
      ("G", "E"), ("G", "F"), ("A", "G")]
    let source := Script.toSource { responses := [("A", [.hierarchy edges])] }
    let table := SubtypeTable.ofEdges edges
    let cache := new ⟨8, 10⟩
    cache.graph.WellFormed ∧ source cache.asked "A" = .found ⟨"A", table⟩ ∧
      (table.reachable "A").card < cache.limits.maxDepth ∧
      table.reachableEntries "A" < cache.limits.maxIterations ∧
      ∃ status later, load source "A" cache = .ok status later ∧
        (status = .alreadyComplete ∨ ∃ added, status = .loaded added) ∧
        ∃ count, Tries ⟨"A", table⟩ "A" cache later count ∧ count ≤ 10 := by
  intro edges source table cache
  have hwf := wellFormed_new ⟨8, 10⟩
  have hreply : source cache.asked "A" = .found ⟨"A", table⟩ := rfl
  have hdepth : (table.reachable "A").card < cache.limits.maxDepth := by decide +kernel
  have hentries : table.reachableEntries "A" = 9 := by decide +kernel
  have hiterations : table.reachableEntries "A" < cache.limits.maxIterations := by
    rw [hentries]
    decide
  obtain ⟨hreturns, htries⟩ := load_adequate hwf hreply
  obtain ⟨status, later, hload, hstatus⟩ := hreturns hdepth hiterations
  obtain ⟨⟨count, hcount⟩, hle⟩ := htries status later hload (by rintro rfl; simp at hstatus)
  have hbound := hle count hcount
  simp only [hentries] at hbound
  exact ⟨hwf, hreply, hdepth, hiterations, status, later, hload, hstatus, count, hcount, hbound⟩

/-- A depth limit that equals the number of names is too small for a cycle: the limit is checked
before the name is found to be on the way. -/
example :
    let source := Script.toSource { otherwise := .hierarchy [("B", "A"), ("C", "B"), ("A", "C")] }
    (load source "A").run' (new ⟨3, 9⟩) = some .truncated ∧
      (load source "A").run' (new ⟨4, 9⟩) = some (.loaded 2) := by
  decide +kernel

end NominalSubtyping.Cache
