import Mathlib.Algebra.Order.BigOperators.Group.Finset
import NominalSubtyping.Proofs.Cache.Coverage

/-!
# The cost of a walk

A walk that no limit cuts short walks each node at most once, and hence follows each reported edge
at most once. To account for that, fix a finite set of names that the reported hierarchy does not
lead out of. The edges *outstanding* are those that lead down from names of the set whose nodes are
neither complete nor being walked. Each attempt to visit a node, after the first, pays for one of
them.

The guard counts attempts only up to a cap, so they are counted once more, without a cap, along the
runs of a walk.

It follows that limits which are larger than the number of names and the number of reported edges
never refuse anything.

## Main definitions

* `Walk.Attempts` : the runs of a walk with the number of attempts.
* `Walk.outstanding` : the number of reported edges that have not been followed.

## Main results

* `Walk.Attempts.iterations_eq` : what the guard has counted.
* `Walk.Attempts.count_le` : attempts are paid for by edges.
* `Walk.Walks.complete_of_limits` : sufficient limits refuse nothing.
-/

namespace NominalSubtyping.Walk

/-! ### Counting attempts -/

/-- The runs of a task, with the number of times that the guard was asked to let a node be
visited. -/
inductive Attempts (snapshot : Snapshot) : Task → Walk → (count : Nat) → Bool → Walk → Prop
  | complete {name id walk} (hcomplete : walk.graph.completeAt id = true) :
      Attempts snapshot (.node name id) walk 0 true walk
  | refused {name id cache guard after entry} (hcomplete : cache.graph.completeAt id = false)
      (henter : guard.enter id = (entry, after)) (hexceeded : entry.isExceeded = true) :
      Attempts snapshot (.node name id) ⟨cache, guard⟩ 1 false ⟨cache, after⟩
  | cycle {name id cache guard after} (hcomplete : cache.graph.completeAt id = false)
      (henter : guard.enter id = (.cycle, after)) :
      Attempts snapshot (.node name id) ⟨cache, guard⟩ 1 true ⟨cache, after⟩
  | visit {name id cache guard entered count complete filled inner after}
      (hcomplete : cache.graph.completeAt id = false)
      (henter : guard.enter id = (.entered, entered))
      (hbelow : Attempts snapshot (.below name id (snapshot.directSubtypes name)) ⟨cache, entered⟩
        count complete ⟨filled, inner⟩)
      (hleave : inner.leave id = .ok after) :
      Attempts snapshot (.node name id) ⟨cache, guard⟩ (count + 1) complete
        ⟨if complete then filled.withComplete id else filled, after⟩
  | done {name id walk} : Attempts snapshot (.below name id []) walk 0 true walk
  | child {name id sub subId subs cache guard count first middle count' rest later}
      (hsub : (cache.withNode sub).graph.lookup sub = some subId)
      (hnode : Attempts snapshot (.node sub subId) ⟨(cache.withNode sub).withEdge id subId, guard⟩
        count first middle)
      (hrest : Attempts snapshot (.below name id subs) middle count' rest later) :
      Attempts snapshot (.below name id (sub :: subs)) ⟨cache, guard⟩ (count + count')
        (first && rest) later

section Attempts

variable {snapshot : Snapshot} {task : Task} {walk later : Walk} {count : Nat} {complete : Bool}

/-- Counting does not change what a run does. -/
theorem Attempts.walks (h : Attempts snapshot task walk count complete later) :
    Walks snapshot task walk complete later := by
  induction h with
  | complete hcomplete => exact .complete hcomplete
  | refused hcomplete henter hexceeded => exact .refused hcomplete henter hexceeded
  | cycle hcomplete henter => exact .cycle hcomplete henter
  | visit hcomplete henter _ hleave ih => exact .visit hcomplete henter ih hleave
  | done => exact .done
  | child hsub _ _ ihNode ihRest => exact .child hsub ihNode ihRest

/-- The attempts of every run can be counted. -/
theorem Walks.exists_attempts (h : Walks snapshot task walk complete later) :
    ∃ count, Attempts snapshot task walk count complete later := by
  induction h with
  | complete hcomplete => exact ⟨0, .complete hcomplete⟩
  | refused hcomplete henter hexceeded => exact ⟨1, .refused hcomplete henter hexceeded⟩
  | cycle hcomplete henter => exact ⟨1, .cycle hcomplete henter⟩
  | visit hcomplete henter _ hleave ih =>
    obtain ⟨count, hbelow⟩ := ih
    exact ⟨count + 1, .visit hcomplete henter hbelow hleave⟩
  | done => exact ⟨0, .done⟩
  | child hsub _ _ ihNode ihRest =>
    obtain ⟨count, hnode⟩ := ihNode
    obtain ⟨count', hrest⟩ := ihRest
    exact ⟨count + count', .child hsub hnode hrest⟩

/-- The guard counts every attempt, up to the cap. -/
theorem Attempts.iterations_eq (h : Attempts snapshot task walk count complete later)
    (hcap : walk.guard.iterations ≤ Guard.iterationCap) :
    later.guard.iterations = min (walk.guard.iterations + count) Guard.iterationCap := by
  induction h with
  | complete => exact (Nat.min_eq_left hcap).symm
  | refused _ henter hexceeded =>
    obtain ⟨-, rfl⟩ := Guard.enter_exceeded henter hexceeded
    rfl
  | cycle _ henter =>
    obtain ⟨-, rfl⟩ := Guard.enter_cycle henter
    rfl
  | @visit name id cache guard entered count complete filled inner after _ henter _ hleave ih =>
    obtain ⟨-, rfl⟩ := Guard.enter_entered henter
    rw [Guard.leave_ok hleave]
    simp only at ih ⊢
    rw [ih (Nat.min_le_right _ _), Guard.nextIterations]
    omega
  | done => exact (Nat.min_eq_left hcap).symm
  | @child _ _ _ _ _ _ guard count _ middle count' _ later _ _ _ ihNode ihRest =>
    have hmiddle : middle.guard.iterations = min (guard.iterations + count) Guard.iterationCap :=
      ihNode hcap
    have hlater := ihRest (hmiddle ▸ Nat.min_le_right _ _)
    simp only at hcap ⊢
    omega

end Attempts

/-! ### Edges that are outstanding -/

/-- The node of `name` is neither complete nor being walked. -/
def Untouched (walk : Walk) (name : String) : Prop :=
  walk.graph.isComplete name = false ∧ ¬ walk.IsOpen name

/-- The reported hierarchy does not lead out of the names `names`. -/
def Encloses (snapshot : Snapshot) (names : Finset String) : Prop :=
  ∀ sup ∈ names, ∀ sub ∈ snapshot.directSubtypes sup, sub ∈ names

open Classical in
/-- The number of reported edges that lead down from untouched names. -/
noncomputable def outstanding (snapshot : Snapshot) (names : Finset String) (walk : Walk) : Nat :=
  ∑ name ∈ names with walk.Untouched name, (snapshot.directSubtypes name).length

/-- The number of attempts that a task makes by itself. -/
def Task.cost : Task → Nat
  | node _ _ => 1
  | below _ _ subs => subs.length

section Outstanding

variable {snapshot : Snapshot} {names : Finset String} {walk later : Walk} {cache : Cache}
  {guard entered : Guard NodeId} {name : String} {id : NodeId}

theorem outstanding_congr (h : ∀ name, later.Untouched name ↔ walk.Untouched name) :
    outstanding snapshot names later = outstanding snapshot names walk := by
  classical
  rw [outstanding, outstanding]
  congr 1
  ext name
  simp only [Finset.mem_filter, h]

/-- All edges of the hierarchy are enough. -/
theorem outstanding_le (snapshot : Snapshot) (names : Finset String) (walk : Walk) :
    outstanding snapshot names walk ≤ ∑ name ∈ names, (snapshot.directSubtypes name).length := by
  classical
  exact Finset.sum_le_sum_of_subset (Finset.filter_subset _ _)

/-- The edges of a node are no longer outstanding once it is being walked. -/
theorem Sound.outstanding_enter (hs : Sound ⟨cache, guard⟩) (snapshot : Snapshot)
    (hname : name ∈ names) (hid : cache.graph.lookup name = some id)
    (hcomplete : cache.graph.completeAt id = false)
    (henter : guard.enter id = (.entered, entered)) :
    outstanding snapshot names ⟨cache, entered⟩ + (snapshot.directSubtypes name).length =
      outstanding snapshot names ⟨cache, guard⟩ := by
  classical
  have huntouched : Untouched ⟨cache, guard⟩ name := by
    refine ⟨TypeGraph.isComplete_eq_false hid hcomplete, ?_⟩
    rintro ⟨key, hkey, hlookup⟩
    rw [Option.some.inj (hlookup.symm.trans hid)] at hkey
    exact (Guard.enter_entered henter).1 hkey
  have hentered (other : String) :
      Untouched ⟨cache, entered⟩ other ↔ other ≠ name ∧ Untouched ⟨cache, guard⟩ other := by
    rw [Untouched, Untouched, hs.isOpen_enter hid henter, not_or]
    exact and_left_comm
  have hinsert : ({other ∈ names | Untouched ⟨cache, guard⟩ other} : Finset String) =
      insert name {other ∈ names | Untouched ⟨cache, entered⟩ other} := by
    ext other
    rw [Finset.mem_insert, Finset.mem_filter, Finset.mem_filter, hentered]
    by_cases heq : other = name
    · subst heq
      exact ⟨fun _ => Or.inl rfl, fun _ => ⟨hname, huntouched⟩⟩
    · simp [heq]
  rw [outstanding, outstanding, hinsert, Finset.sum_insert, Nat.add_comm]
  simp [hentered]

/-- Recording an edge leaves the outstanding edges as they are. -/
theorem Sound.outstanding_link (hs : Sound ⟨cache, guard⟩) (snapshot : Snapshot)
    (names : Finset String) {sub : String} {subId : NodeId}
    (hlink : (⟨cache, guard⟩ : Walk).Kept ⟨(cache.withNode sub).withEdge id subId, guard⟩) :
    outstanding snapshot names ⟨(cache.withNode sub).withEdge id subId, guard⟩ =
      outstanding snapshot names ⟨cache, guard⟩ := by
  refine outstanding_congr fun other => ?_
  rw [Untouched, Untouched, hlink.isOpen_iff hs]
  simp only [graph, hs.isComplete_link]

/-- The nodes that are being walked are no more than the names. -/
theorem Sound.length_visiting_le (hs : walk.Sound)
    (hopen : ∀ other, walk.IsOpen other → other ∈ names) :
    walk.guard.visiting.length ≤ names.card := by
  have hlt {key : NodeId} (hkey : key ∈ walk.guard.visiting.toFinset) : key < walk.graph.size :=
    hs.visiting_lt key (List.mem_toFinset.1 hkey)
  rw [← List.toFinset_card_of_nodup hs.nodup]
  refine Finset.card_le_card_of_injOn walk.graph.nameAt ?_ ?_
  · intro key hkey
    exact hopen _ ⟨key, List.mem_toFinset.1 hkey, hs.wellFormed.lookup_nameAt (hlt hkey)⟩
  · intro key hkey key' hkey' heq
    exact hs.wellFormed.nameAt_inj (hlt hkey) (hlt hkey') heq

end Outstanding

/-! ### What limits are sufficient -/

section Sufficient

variable {snapshot : Snapshot} {names : Finset String} {task : Task} {walk later : Walk}
  {count : Nat} {complete : Bool}

/-- Attempts are paid for by the edges that are no longer outstanding. -/
theorem Attempts.count_le (h : Attempts snapshot task walk count complete later)
    (hcomplete : complete = true) (hs : walk.Sound) (hv : task.Valid snapshot walk)
    (hnames : Encloses snapshot names) (hname : task.name ∈ names) :
    count + outstanding snapshot names later ≤ task.cost + outstanding snapshot names walk := by
  induction h with
  | complete => exact Nat.add_le_add_right (Nat.zero_le _) _
  | refused => cases hcomplete
  | @cycle name id cache guard after _ henter =>
    obtain ⟨-, rfl⟩ := Guard.enter_cycle henter
    exact Nat.le_refl _
  | @visit name id cache guard entered count _ filled inner after hincomplete henter hbelow
      hleave ih =>
    subst hcomplete
    have hentered := hs.enter (hs.wellFormed.lt_size hv) hincomplete henter
    have hvalid := Task.valid_entered snapshot hv henter
    have hkept := hbelow.walks.kept hentered hvalid
    have hwhole := Kept.leave hv henter hkept hleave true
    have hpaid := hs.outstanding_enter snapshot (show name ∈ names from hname) hv hincomplete henter
    have hbudget := ih rfl hentered hvalid hname
    -- When a node is left it is complete, so its edges do not become outstanding again.
    have hsame : outstanding snapshot names
        ⟨if true then filled.withComplete id else filled, after⟩ =
        outstanding snapshot names ⟨filled, inner⟩ := by
      refine outstanding_congr fun other => ?_
      have hmark := hkept.isComplete_leave hv true other
      rw [Untouched, Untouched, Bool.eq_false_iff, Bool.eq_false_iff, ne_eq, ne_eq, hmark,
        hwhole.isOpen_iff hs, hkept.isOpen_iff hentered, hs.isOpen_enter hv henter]
      simp only [true_and, not_or, and_assoc]
    rw [hsame]
    simp only [Task.cost] at hbudget ⊢
    omega
  | done => exact Nat.le_refl _
  | @child name id sub subId subs cache guard count first middle count' rest later hsub hnode hrest
      ihNode ihRest =>
    obtain ⟨hfirst, hlast⟩ := Bool.and_eq_true_iff.1 hcomplete
    have hlink := hs.link (hs.wellFormed.lt_size hv.1) hsub
    have hkept := hlink.trans (hnode.walks.kept hlink.sound hsub)
    have hmem := hnames name hname sub (hv.2.2 sub List.mem_cons_self)
    have hbudget := ihNode hfirst hlink.sound hsub hmem
    have hbudget' := ihRest hlast hkept.sound (hv.rest hkept) hname
    have hsame := hs.outstanding_link snapshot names hlink
    rw [hsame] at hbudget
    simp only [Task.cost, List.length_cons] at hbudget hbudget' ⊢
    omega

/-- Limits that are larger than the number of names and that leave an attempt for every outstanding
edge refuse nothing. -/
theorem Walks.complete_of_limits (h : Walks snapshot task walk complete later) (hs : walk.Sound)
    (hv : task.Valid snapshot walk) (hnames : Encloses snapshot names) (hname : task.name ∈ names)
    (hopen : ∀ other, walk.IsOpen other → other ∈ names)
    (hcap : walk.guard.iterations ≤ Guard.iterationCap)
    (hdepth : names.card < walk.guard.limits.maxDepth)
    (hbudget : walk.guard.iterations + task.cost + outstanding snapshot names walk ≤
      walk.guard.limits.maxIterations) : complete = true := by
  induction h with
  | complete => rfl
  | @refused name id cache guard after entry _ henter hexceeded =>
    have hle := hs.length_visiting_le hopen
    rw [← hs.depth_eq] at hle
    have hnext := guard.nextIterations_le
    rcases (Guard.enter_exceeded henter hexceeded).1 with hlimit | hlimit
    · simp only [Task.cost] at hbudget
      omega
    · exact absurd (Nat.lt_of_le_of_lt hle hdepth) (Nat.not_lt.2 hlimit)
  | cycle => rfl
  | @visit name id cache guard entered _ filled inner after hincomplete henter hbelow hleave ih =>
    have hentered := hs.enter (hs.wellFormed.lt_size hv) hincomplete henter
    have hvalid := Task.valid_entered snapshot hv henter
    have hpaid := hs.outstanding_enter snapshot (show name ∈ names from hname) hv hincomplete henter
    have hnext := guard.nextIterations_le
    have hguard := (Guard.enter_entered henter).2
    have hlimits : entered.limits = guard.limits := by
      rw [hguard]
    have hiterations : entered.iterations = guard.nextIterations := by
      rw [hguard]
    refine ih hentered hvalid hname (fun other ho => ?_) (hiterations ▸ Nat.min_le_right _ _)
      (hlimits ▸ hdepth) ?_
    · rcases (hs.isOpen_enter hv henter).1 ho with rfl | ho
      · exact hname
      · exact hopen other ho
    · simp only [Task.cost, hlimits] at hbudget ⊢
      omega
  | done => rfl
  | @child name id sub subId subs cache guard first middle rest later hsub hnode hrest
      ihNode ihRest =>
    have hlink := hs.link (hs.wellFormed.lt_size hv.1) hsub
    have hkept := hlink.trans (hnode.kept hlink.sound hsub)
    have hmem := hnames name hname sub (hv.2.2 sub List.mem_cons_self)
    have hsame := hs.outstanding_link snapshot names hlink
    simp only [Task.cost, List.length_cons] at hbudget
    have hfirst := ihNode hlink.sound hsub hmem
      (fun other ho => hopen other ((hlink.isOpen_iff hs).1 ho)) hcap hdepth
      (by rw [hsame]; simp only [Task.cost]; omega)
    -- What the first subtype cost is no longer outstanding when the others are walked.
    obtain ⟨count, hattempts⟩ := hnode.exists_attempts
    have hpaid := hattempts.count_le hfirst hlink.sound hsub hnames hmem
    have hiterations : middle.guard.iterations =
        min (guard.iterations + count) Guard.iterationCap :=
      hattempts.iterations_eq hcap
    have hcap' : middle.guard.iterations ≤ Guard.iterationCap := hiterations ▸ Nat.min_le_right _ _
    have hlast := ihRest hkept.sound (hv.rest hkept) hname
      (fun other ho => hopen other ((hkept.isOpen_iff hs).1 ho)) hcap' (hkept.limits ▸ hdepth)
      (by rw [hkept.limits]; rw [hsame] at hpaid; simp only [Task.cost] at hpaid ⊢; omega)
    rw [hfirst, hlast]
    rfl

end Sufficient

end NominalSubtyping.Walk
