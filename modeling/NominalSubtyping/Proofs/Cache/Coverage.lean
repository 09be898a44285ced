import NominalSubtyping.Proofs.Cache.Walks
import NominalSubtyping.Proofs.Graph.Reach

/-!
# What a walk records

Four facts hold of every run of a walk, whether a limit cut it short or not. Each new edge was
reported, and each new complete node was reached by the walk. Each new node is the end of an edge. A
node that the run made complete has all its reported subtypes recorded, and each of them is
complete, too, or is being walked further up, or was being walked further up when a limit was hit.
And the verdict on a task is no exactly when a limit refused something on the way.

The third fact is as far as one can go: a node met again while it is still being walked counts as
complete, and that promise is kept only if the walk of that node is not cut short later.

## Main definitions

* `Walk.IsOpen` : a name whose node is being walked.
* `Walk.Promised` : what is known of a reported subtype of a node that was made complete.

## Main results

* `Walk.Walks.exceeded_eq` : the verdict is no exactly when a limit refused something.
* `Walk.Walks.origin`, `Walk.Walks.named` : where new edges, new complete nodes and new nodes come
  from.
* `Walk.Walks.coverage` : what a new complete node has below it.
-/

namespace NominalSubtyping.Walk

/-- The node of `name` is being walked. -/
def IsOpen (walk : Walk) (name : String) : Prop :=
  ∃ id ∈ walk.guard.visiting, walk.graph.lookup name = some id

section Open

variable {walk later : Walk} {cache : Cache} {guard entered : Guard NodeId} {name : String}
  {id : NodeId}

theorem Kept.isOpen_iff (h : walk.Kept later) (hs : walk.Sound) {other : String} :
    later.IsOpen other ↔ walk.IsOpen other := by
  constructor
  · rintro ⟨id, hid, hlookup⟩
    rw [h.visiting] at hid
    obtain ⟨known, hknown⟩ := TypeGraph.WellFormed.exists_name (hs.visiting_lt id hid)
    have hold := (hs.wellFormed.lookup_iff known id).2 hknown
    rw [h.sound.wellFormed.lookup_inj hlookup (h.extend.lookup hold)]
    exact ⟨id, hid, hold⟩
  · rintro ⟨id, hid, hlookup⟩
    exact ⟨id, h.visiting ▸ hid, h.extend.lookup hlookup⟩

theorem Sound.isOpen_enter (hs : Sound ⟨cache, guard⟩) (hid : cache.graph.lookup name = some id)
    (henter : guard.enter id = (.entered, entered)) {other : String} :
    IsOpen ⟨cache, entered⟩ other ↔ other = name ∨ IsOpen ⟨cache, guard⟩ other := by
  obtain ⟨-, rfl⟩ := Guard.enter_entered henter
  constructor
  · rintro ⟨key, hkey, hlookup⟩
    rcases List.mem_cons.1 hkey with rfl | hkey
    · exact Or.inl (hs.wellFormed.lookup_inj hlookup hid)
    · exact Or.inr ⟨key, hkey, hlookup⟩
  · rintro (rfl | ⟨key, hkey, hlookup⟩)
    · exact ⟨id, List.mem_cons_self, hid⟩
    · exact ⟨key, List.mem_cons_of_mem id hkey, hlookup⟩

end Open

/-! ### The steps of a run, by name -/

section Steps

variable {cache filled : Cache} {guard entered inner after : Guard NodeId} {name sub : String}
  {id subId : NodeId}

theorem Sound.isComplete_link (hs : Sound ⟨cache, guard⟩) {other : String} :
    ((cache.withNode sub).withEdge id subId).graph.isComplete other =
      cache.graph.isComplete other := by
  rw [Cache.graph_withEdge, TypeGraph.isComplete_withEdge, Cache.graph_withNode,
    TypeGraph.isComplete_withNode hs.wellFormed]

theorem Sound.hasEdge_link (hs : Sound ⟨cache, guard⟩) (hid : cache.graph.lookup name = some id)
    (hsub : (cache.withNode sub).graph.lookup sub = some subId) {a b : String} :
    ((cache.withNode sub).withEdge id subId).graph.HasEdge a b ↔
      cache.graph.HasEdge a b ∨ (a = name ∧ b = sub) := by
  rw [Cache.graph_withNode] at hsub
  rw [Cache.graph_withEdge, Cache.graph_withNode,
    TypeGraph.hasEdge_withEdge (hs.wellFormed.withNode sub)
      ((cache.graph.extends_withNode sub).lookup hid) hsub,
    TypeGraph.hasEdge_withNode hs.wellFormed]

theorem Kept.isComplete_leave (hkept : (⟨cache, entered⟩ : Walk).Kept ⟨filled, inner⟩)
    (hid : cache.graph.lookup name = some id) (complete : Bool) (other : String) :
    (if complete then filled.withComplete id else filled).graph.isComplete other = true ↔
      filled.graph.isComplete other = true ∨ (complete = true ∧ other = name) := by
  cases complete with
  | false => simp
  | true =>
    rw [if_pos rfl, Cache.graph_withComplete,
      TypeGraph.isComplete_withComplete hkept.sound.wellFormed (hkept.extend.lookup hid)]
    simp

theorem hasEdge_leave {complete : Bool} {a b : String} :
    (if complete then filled.withComplete id else filled).graph.HasEdge a b ↔
      filled.graph.HasEdge a b := by
  cases complete with
  | false => exact Iff.rfl
  | true => exact TypeGraph.hasEdge_withComplete

end Steps

namespace Walks

variable {snapshot : Snapshot} {task : Task} {walk later : Walk} {complete : Bool}

/-- The verdict on a task is no exactly when a limit refused something on the way. -/
theorem exceeded_eq (h : Walks snapshot task walk complete later) :
    later.guard.exceeded = (walk.guard.exceeded || !complete) := by
  induction h with
  | complete => exact (Bool.or_false _).symm
  | refused _ henter hexceeded =>
    obtain ⟨-, rfl⟩ := Guard.enter_exceeded henter hexceeded
    exact (Bool.or_true _).symm
  | cycle _ henter =>
    obtain ⟨-, rfl⟩ := Guard.enter_cycle henter
    exact (Bool.or_false _).symm
  | visit _ henter _ hleave ih =>
    obtain ⟨-, rfl⟩ := Guard.enter_entered henter
    rw [Guard.leave_ok hleave]
    exact ih
  | done => exact (Bool.or_false _).symm
  | child _ _ _ ihNode ihRest =>
    rw [ihRest, ihNode, Bool.or_assoc, Bool.not_and]

/-- A limit has been hit by the time that a visit ends with the verdict no. -/
theorem exceeded_leave {cache filled : Cache} {entered inner after : Guard NodeId} {id : NodeId}
    (h : Walks snapshot task ⟨cache, entered⟩ complete ⟨filled, inner⟩)
    (hleave : inner.leave id = .ok after)
    (hcomplete : complete = false) : after.exceeded = true := by
  rw [Guard.leave_ok hleave, h.exceeded_eq, hcomplete]
  exact Bool.or_true _

theorem exceeded_mono (h : Walks snapshot task walk complete later)
    (hex : walk.guard.exceeded = true) : later.guard.exceeded = true := by
  rw [h.exceeded_eq, hex, Bool.true_or]

end Walks

/-- The task begins at a name in `P`, unless there is nothing to do. -/
def Task.Within (P : String → Prop) (walk : Walk) : Task → Prop
  | node name _ => walk.graph.isComplete name = false → P name
  | below name _ _ => P name

/-- A reported subtype of a type in `P` is in `P`, unless it is complete. -/
def Closed (snapshot : Snapshot) (walk : Walk) (P : String → Prop) : Prop :=
  ∀ sup sub, P sup → sub ∈ snapshot.directSubtypes sup → walk.graph.isComplete sub = false → P sub

theorem Closed.later {snapshot : Snapshot} {walk later : Walk} {P : String → Prop}
    (h : Closed snapshot walk P) (hextend : walk.graph.Extends later.graph) :
    Closed snapshot later P := by
  intro sup sub hsup hmem hsub
  refine h sup sub hsup hmem (Bool.eq_false_iff.2 fun hc => ?_)
  rw [hextend.isComplete hc] at hsub
  cases hsub

/-- Where the new edges and the new complete nodes of a graph come from. -/
structure Origin (snapshot : Snapshot) (P : String → Prop) (walk later : Walk) : Prop where
  edge : ∀ {sup sub}, later.graph.HasEdge sup sub → walk.graph.HasEdge sup sub ∨
    (P sup ∧ sub ∈ snapshot.directSubtypes sup ∧
      (later.graph.isComplete sup = true ∨ walk.IsOpen sup ∨ later.guard.exceeded = true))
  complete : ∀ {name}, later.graph.isComplete name = true →
    walk.graph.isComplete name = true ∨ P name

theorem Origin.refl (snapshot : Snapshot) (P : String → Prop) {walk later : Walk}
    (h : later.cache = walk.cache) : Origin snapshot P walk later where
  edge he := Or.inl (by rwa [graph, h] at he)
  complete hc := Or.inl (by rwa [graph, h] at hc)

namespace Walks

variable {snapshot : Snapshot} {task : Task} {walk later : Walk} {complete : Bool}

/-- New edges were reported, and lead down from types that the walk reached; so do new complete
nodes belong to such types. -/
theorem origin {P : String → Prop} (h : Walks snapshot task walk complete later) (hs : walk.Sound)
    (hv : task.Valid snapshot walk) (hP : task.Within P walk) (hclosed : Closed snapshot walk P) :
    Origin snapshot P walk later := by
  induction h with
  | complete => exact .refl snapshot P rfl
  | refused => exact .refl snapshot P rfl
  | cycle => exact .refl snapshot P rfl
  | @visit name id cache guard entered complete filled inner after hcomplete henter hbelow
      hleave ih =>
    have hname := hP (TypeGraph.isComplete_eq_false hv hcomplete)
    have hentered := hs.enter (hs.wellFormed.lt_size hv) hcomplete henter
    have hvalid := Task.valid_entered snapshot hv henter
    have hkept := hbelow.kept hentered hvalid
    have hfilled := ih hentered hvalid hname hclosed
    have hmark {other : String} := hkept.isComplete_leave hv complete other
    refine ⟨fun {sup sub} he => ?_, fun {other} hc => ?_⟩
    · rcases hfilled.edge (hasEdge_leave.1 he) with he | ⟨hsup, hmem, hwhy⟩
      · exact Or.inl he
      · refine Or.inr ⟨hsup, hmem, ?_⟩
        rcases hwhy with hc | ho | hex
        · exact Or.inl (hmark.2 (Or.inl hc))
        · rcases (hs.isOpen_enter hv henter).1 ho with rfl | ho
          · cases complete with
            | true => exact Or.inl (hmark.2 (Or.inr ⟨rfl, rfl⟩))
            | false => exact Or.inr (Or.inr (exceeded_leave hbelow hleave rfl))
          · exact Or.inr (Or.inl ho)
        · exact Or.inr (Or.inr ((Guard.leave_ok hleave).symm ▸ hex))
    · rcases hmark.1 hc with hc | ⟨-, rfl⟩
      · exact hfilled.complete hc
      · exact Or.inr hname
  | done => exact .refl snapshot P rfl
  | @child name id sub subId subs cache guard first middle rest later hsub hnode hrest
      ihNode ihRest =>
    have hmem := hv.2.2 sub List.mem_cons_self
    have hlink := hs.link (hs.wellFormed.lt_size hv.1) hsub
    have hkept := hlink.trans (hnode.kept hlink.sound hsub)
    have hlater := hrest.kept hkept.sound (hv.rest hkept)
    have hfirst := ihNode hlink.sound hsub
      (fun hc => hclosed name sub hP hmem (hs.isComplete_link.symm.trans hc))
      (hclosed.later hlink.extend)
    have hlast := ihRest hkept.sound (hv.rest hkept) hP (hclosed.later hkept.extend)
    refine ⟨fun {a b} he => ?_, fun {other} hc => ?_⟩
    · rcases hlast.edge he with he | ⟨ha, hb, hwhy⟩
      · rcases hfirst.edge he with he | ⟨ha, hb, hwhy⟩
        · rcases (hs.hasEdge_link hv.1 hsub).1 he with he | ⟨rfl, rfl⟩
          · exact Or.inl he
          · exact Or.inr ⟨hP, hmem, Or.inr (Or.inl ⟨id, hv.2.1, hv.1⟩)⟩
        · refine Or.inr ⟨ha, hb, ?_⟩
          rcases hwhy with hc | ho | hex
          · exact Or.inl (hlater.extend.isComplete hc)
          · exact Or.inr (Or.inl ((hlink.isOpen_iff hs).1 ho))
          · exact Or.inr (Or.inr (hrest.exceeded_mono hex))
      · exact Or.inr ⟨ha, hb, hwhy.imp_right (Or.imp_left (hkept.isOpen_iff hs).1)⟩
    · rcases hlast.complete hc with hc | hc
      · exact (hfirst.complete hc).imp_left hs.isComplete_link.symm.trans
      · exact Or.inr hc

/-- Every node that a run made is the end of an edge. -/
theorem named (h : Walks snapshot task walk complete later) (hs : walk.Sound)
    (hv : task.Valid snapshot walk) {other : String} (hother : later.graph.contains other = true) :
    walk.graph.contains other = true ∨ ∃ sup, later.graph.HasEdge sup other := by
  induction h with
  | complete => exact Or.inl hother
  | refused => exact Or.inl hother
  | cycle => exact Or.inl hother
  | @visit name id cache guard entered complete filled inner after hcomplete henter hbelow
      hleave ih =>
    have hentered := hs.enter (hs.wellFormed.lt_size hv) hcomplete henter
    have hfilled : filled.graph.contains other = true := by
      cases complete with
      | false => exact hother
      | true => exact TypeGraph.contains_withComplete.symm.trans hother
    refine (ih hentered (Task.valid_entered snapshot hv henter) hfilled).imp_right ?_
    rintro ⟨sup, hedge⟩
    exact ⟨sup, hasEdge_leave.2 hedge⟩
  | done => exact Or.inl hother
  | @child name id sub subId subs cache guard first middle rest later hsub hnode hrest
      ihNode ihRest =>
    have hlink := hs.link (hs.wellFormed.lt_size hv.1) hsub
    have hkept := hnode.kept hlink.sound hsub
    have hvalid := hv.rest (hlink.trans hkept)
    have hlater := (hrest.kept hkept.sound hvalid).extend
    rcases ihRest hkept.sound hvalid hother with hmiddle | hedge
    · rcases ihNode hlink.sound hsub hmiddle with hlinked | ⟨sup, hedge⟩
      · rw [graph, Cache.graph_withEdge, TypeGraph.contains_withEdge, Cache.graph_withNode,
          TypeGraph.contains_withNode] at hlinked
        refine hlinked.imp_right ?_
        rintro rfl
        have hedge := (hs.hasEdge_link hv.1 hsub).2 (Or.inr ⟨rfl, rfl⟩)
        exact ⟨name, (hkept.extend.trans hlater).hasEdge hedge⟩
      · exact Or.inr ⟨sup, hlater.hasEdge hedge⟩
    · exact Or.inr hedge

end Walks

/-- What is known of a reported subtype of a node that a run made complete: the edge is recorded,
and the subtype is complete, unless it lies above the node as well and was being walked when the run
began or a limit was hit. -/
def Promised (walk later : Walk) (sup sub : String) : Prop :=
  later.graph.HasEdge sup sub ∧ (later.graph.isComplete sub = true ∨
    ((walk.IsOpen sub ∨ later.guard.exceeded = true) ∧ later.graph.LiesBelow sup sub))

/-- A promise is carried over to a longer run. -/
theorem Promised.mono {walk before middle later : Walk} {sup sub : String}
    (h : Promised before middle sup sub) (hextend : middle.graph.Extends later.graph)
    (hopen : before.IsOpen sub → walk.IsOpen sub)
    (hexceeded : middle.guard.exceeded = true → later.guard.exceeded = true) :
    Promised walk later sup sub := by
  obtain ⟨hedge, hwhy⟩ := h
  refine ⟨hextend.hasEdge hedge, hwhy.imp hextend.isComplete ?_⟩
  rintro ⟨hwhy, hbelow⟩
  exact ⟨hwhy.imp hopen hexceeded, hextend.liesBelow hbelow⟩

/-- A promise at the end of the visit of a node. That node may be the one that was promised to be
complete; then the verdict decides. -/
theorem Promised.leave {snapshot : Snapshot} {task : Task} {cache filled : Cache}
    {guard entered inner after : Guard NodeId} {name sup sub : String} {id : NodeId}
    {complete : Bool}
    (h : Promised ⟨cache, entered⟩ ⟨filled, inner⟩ sup sub) (hs : Sound ⟨cache, guard⟩)
    (hid : cache.graph.lookup name = some id) (henter : guard.enter id = (.entered, entered))
    (hbelow : Walks snapshot task ⟨cache, entered⟩ complete ⟨filled, inner⟩)
    (hkept : (⟨cache, entered⟩ : Walk).Kept ⟨filled, inner⟩) (hleave : inner.leave id = .ok after) :
    Promised ⟨cache, guard⟩ ⟨if complete then filled.withComplete id else filled, after⟩
      sup sub := by
  have hmark := hkept.isComplete_leave hid complete sub
  obtain ⟨hedge, hwhy⟩ := h
  refine ⟨hasEdge_leave.2 hedge, ?_⟩
  have hlies (hb : filled.graph.LiesBelow sup sub) :
      (if complete then filled.withComplete id else filled).graph.LiesBelow sup sub :=
    Relation.ReflTransGen.mono (fun _ _ he => hasEdge_leave.2 he) _ _ hb
  rcases hwhy with hc | ⟨ho | hex, hb⟩
  · exact Or.inl (hmark.2 (Or.inl hc))
  · rcases (hs.isOpen_enter hid henter).1 ho with rfl | ho
    · cases complete with
      | true => exact Or.inl (hmark.2 (Or.inr ⟨rfl, rfl⟩))
      | false => exact Or.inr ⟨Or.inr (hbelow.exceeded_leave hleave rfl), hlies hb⟩
    · exact Or.inr ⟨Or.inl ho, hlies hb⟩
  · exact Or.inr ⟨Or.inr ((Guard.leave_ok hleave).symm ▸ hex), hlies hb⟩

/-- What the verdict on a task says about the nodes that it was about. -/
def Task.Settled (walk later : Walk) (complete : Bool) : Task → Prop
  | node name _ => complete = true → later.graph.isComplete name = true ∨ walk.IsOpen name
  | below name _ subs => ∀ sub ∈ subs, later.graph.HasEdge name sub ∧
      (complete = true → later.graph.isComplete sub = true ∨ walk.IsOpen sub)

/-- What lies below the nodes that a run made complete. -/
def Covers (snapshot : Snapshot) (walk later : Walk) : Prop :=
  ∀ name, later.graph.isComplete name = true → walk.graph.isComplete name = true ∨
    ∀ sub ∈ snapshot.directSubtypes name, Promised walk later name sub

theorem Covers.refl (snapshot : Snapshot) {walk later : Walk} (h : later.cache = walk.cache) :
    Covers snapshot walk later := by
  intro name hc
  rw [graph, h] at hc
  exact Or.inl hc

namespace Walks

variable {snapshot : Snapshot} {task : Task} {walk later : Walk} {complete : Bool}

/-- A node that a run makes complete has its reported subtypes recorded, and each of them is
complete or promised to be. Whatever is being walked lies above the node of the task. -/
theorem coverage (h : Walks snapshot task walk complete later) (hs : walk.Sound)
    (hv : task.Valid snapshot walk)
    (habove : ∀ other, walk.IsOpen other → walk.graph.LiesBelow task.name other) :
    task.Settled walk later complete ∧ Covers snapshot walk later := by
  induction h with
  | complete hcomplete =>
    exact ⟨fun _ => Or.inl (TypeGraph.isComplete_eq_true_iff.2 ⟨_, hv, hcomplete⟩),
      .refl snapshot rfl⟩
  | refused => exact ⟨fun hf => (by cases hf), .refl snapshot rfl⟩
  | cycle _ henter =>
    exact ⟨fun _ => Or.inr ⟨_, (Guard.enter_cycle henter).1, hv⟩, .refl snapshot rfl⟩
  | @visit name id cache guard entered complete filled inner after hcomplete henter hbelow
      hleave ih =>
    have hentered := hs.enter (hs.wellFormed.lt_size hv) hcomplete henter
    have hvalid := Task.valid_entered snapshot hv henter
    have hkept := hbelow.kept hentered hvalid
    have hextend := (Kept.leave hv henter hkept hleave complete).extend
    have hmark {other : String} := hkept.isComplete_leave hv complete other
    have habove' : ∀ other, IsOpen ⟨cache, entered⟩ other → cache.graph.LiesBelow name other := by
      intro other ho
      rcases (hs.isOpen_enter hv henter).1 ho with rfl | ho
      · exact Relation.ReflTransGen.refl
      · exact habove other ho
    obtain ⟨hsettled, hcovers⟩ := ih hentered hvalid habove'
    refine ⟨fun hc => Or.inl (hmark.2 (Or.inr ⟨hc, rfl⟩)), fun other hc => ?_⟩
    rcases hmark.1 hc with hc | ⟨hwhole, rfl⟩
    · refine (hcovers other hc).imp_right fun hall sub hsub => ?_
      exact (hall sub hsub).leave hs hv henter hbelow hkept hleave
    · refine Or.inr fun sub hsub => ?_
      obtain ⟨hedge, hwhy⟩ := hsettled sub hsub
      refine ⟨hasEdge_leave.2 hedge, ?_⟩
      rcases hwhy hwhole with hc | ho
      · exact Or.inl (hmark.2 (Or.inl hc))
      · rcases (hs.isOpen_enter hv henter).1 ho with rfl | ho
        · exact Or.inl (hmark.2 (Or.inr ⟨hwhole, rfl⟩))
        · exact Or.inr ⟨Or.inl ho, hextend.liesBelow (habove sub ho)⟩
  | done => exact ⟨fun _ h => (by cases h), .refl snapshot rfl⟩
  | @child name id sub subId subs cache guard first middle rest later hsub hnode hrest
      ihNode ihRest =>
    have hlink := hs.link (hs.wellFormed.lt_size hv.1) hsub
    have hnodeKept := hnode.kept hlink.sound hsub
    have hkept := hlink.trans hnodeKept
    have hlater := hrest.kept hkept.sound (hv.rest hkept)
    have hnew := (hs.hasEdge_link hv.1 hsub).2 (Or.inr ⟨rfl, rfl⟩)
    obtain ⟨hfirst, hcoversFirst⟩ := ihNode hlink.sound hsub fun other ho =>
      (hlink.extend.liesBelow (habove other ((hlink.isOpen_iff hs).1 ho))).head hnew
    obtain ⟨hlast, hcoversLast⟩ := ihRest hkept.sound (hv.rest hkept) fun other ho =>
      hkept.extend.liesBelow (habove other ((hkept.isOpen_iff hs).1 ho))
    refine ⟨fun other hother => ?_, fun other hc => ?_⟩
    · rcases List.mem_cons.1 hother with rfl | hother
      · refine ⟨hlater.extend.hasEdge (hnodeKept.extend.hasEdge hnew), fun hc => ?_⟩
        rcases hfirst (Bool.and_eq_true_iff.1 hc).1 with hc | ho
        · exact Or.inl (hlater.extend.isComplete hc)
        · exact Or.inr ((hlink.isOpen_iff hs).1 ho)
      · obtain ⟨hedge, hwhy⟩ := hlast other hother
        refine ⟨hedge, fun hc => ?_⟩
        exact (hwhy (Bool.and_eq_true_iff.1 hc).2).imp_right (hkept.isOpen_iff hs).1
    · rcases hcoversLast other hc with hc | hall
      · rcases hcoversFirst other hc with hc | hall
        · exact Or.inl (hs.isComplete_link.symm.trans hc)
        · exact Or.inr fun sub hsub =>
            (hall sub hsub).mono hlater.extend (hlink.isOpen_iff hs).1 hrest.exceeded_mono
      · exact Or.inr fun sub hsub =>
          (hall sub hsub).mono (.refl _) (hkept.isOpen_iff hs).1 fun hex => hex

end Walks

end NominalSubtyping.Walk
