import NominalSubtyping.Proofs.Cache.Demands
import NominalSubtyping.Proofs.Query.Bounds

/-!
# What a question demands

Over a catalog the answers to questions do not depend on what has been loaded before. Since a
question goes on or stops by the answers that it has got so far, what it demands of the cache does
not depend on that either. An action is *uniform* if from every faithful cache it gives the same
value and meets the same demands; every part of a question is, although the numbers of the nodes
that it works on are not the same in different caches.

## Main definitions

* `Cache.Uniform`, `Engine.Uniform` : the value of an action and its demands are always the same.

## Main results

* `Bases.related_uniform` : comparing base types is uniform.
* `Engine.relate_uniform`, `Cache.withEngine_uniform` : so is answering a question.
-/

namespace NominalSubtyping

variable {α β : Type} {catalog : Catalog}

/-! ### Comparing base types -/

namespace Cache

/-- From every faithful cache the action gives the same value and meets the same demands. -/
def Uniform (catalog : Catalog) (action : CacheM α) : Prop :=
  ∃ value demands, ∀ {cache}, Faithful catalog cache → Ends catalog action cache value demands

namespace Uniform

variable {action : CacheM α} {next : α → CacheM β}

theorem pure (value : α) : Uniform catalog (pure value) :=
  ⟨value, [], fun h => .pure h value⟩

theorem bind (h : Uniform catalog action) (hnext : ∀ value, Uniform catalog (next value)) :
    Uniform catalog (action >>= next) := by
  obtain ⟨value, demands, haction⟩ := h
  obtain ⟨value', demands', hrest⟩ := hnext value
  exact ⟨value', demands ++ demands', fun h => (haction h).bind fun hmiddle _ => hrest hmiddle⟩

theorem record (event : Event) : Uniform catalog (record event) :=
  ⟨⟨⟩, [], fun h => .record h event⟩

/-- A verdict is given back after a no was recorded. -/
theorem unless_record {action : CacheM Bool} {event : Event} (h : Uniform catalog action) :
    Uniform catalog (do
      let verdict ← action
      unless verdict do Cache.record event
      return verdict) := by
  refine h.bind fun verdict => ?_
  cases verdict with
  | true => exact .pure true
  | false => exact (Uniform.record event).bind fun _ => .pure false

end Uniform

end Cache

namespace Bases

open Cache

variable {cache : Cache}

open Classical in
theorem liesBelow_uniform (hbuilt : catalog.Built) (sub sup : String) :
    Uniform catalog (liesBelow catalog.toSource sub sup) := by
  refine ⟨decide (catalog.Below sub sup), [.node sub, .node sup, .below sup], fun {cache} h => ?_⟩
  refine .intern_bind h fun {subId} hsub => ?_
  refine .intern_bind (h.withNode sub) fun {supId} hsup => ?_
  refine .load_bind ((h.withNode sub).withNode sup) hbuilt
    fun {later} hlater hextend hexhausted => ?_
  obtain ⟨verdict, hancestor, hiff⟩ := TypeGraph.isAncestor_eq hlater.wellFormed
    (hextend.lookup (((cache.withNode sub).grows_withNode sup).extend.lookup hsub))
    (hextend.lookup hsup)
  rw [hlater.liesBelow_iff hexhausted] at hiff
  rw [← Bool.eq_iff_iff.2 (hiff.trans decide_eq_true_iff.symm)]
  exact .inspect hlater hancestor

theorem isSubtype_uniform (hbuilt : catalog.Built) (config : Config) (sub sup : String) :
    Uniform catalog (isSubtype config catalog.toSource sub sup) := by
  rw [isSubtype]
  cases config.verdict? .subtype sub sup with
  | some verdict => exact .pure verdict
  | none => exact (liesBelow_uniform hbuilt sub sup).unless_record

open Classical in
/-- Once everything below two names has been loaded, what lies below both is found. -/
theorem sharedBelow_ends (h : Faithful catalog cache) (hbuilt : catalog.Built)
    {left right : String} {leftId rightId : NodeId}
    (hleft : cache.graph.lookup left = some leftId)
    (hright : cache.graph.lookup right = some rightId) :
    Ends catalog (do
      discard (load catalog.toSource left)
      discard (load catalog.toSource right)
      let leftBelow ← inspect (·.subtypeClosure leftId)
      let rightBelow ← inspect (·.subtypeClosure rightId)
      return overlap leftBelow rightBelow) cache
      (decide (∃ type, catalog.Below type left ∧ catalog.Below type right))
      [.below left, .below right] := by
  refine .load_bind h hbuilt fun {middle} hmiddle hextend hexhausted => ?_
  refine .load_bind hmiddle hbuilt fun {later} hlater hextend' hexhausted' => ?_
  obtain ⟨leftBelow, rightBelow, hclosure, hclosure', hiff⟩ := TypeGraph.subtypeClosure_meet_eq
    hlater.wellFormed (hextend'.lookup (hextend.lookup hleft))
    (hextend'.lookup (hextend.lookup hright))
  simp only [hlater.liesBelow_iff (hexhausted.mono hextend'), hlater.liesBelow_iff hexhausted']
    at hiff
  rw [← Bool.eq_iff_iff.2 (overlap_eq_true_iff.trans (hiff.trans decide_eq_true_iff.symm))]
  exact .inspect_bind hclosure (.inspect_bind hclosure' (.pure hlater _))

/-- A test that may be skipped decides the question if its verdict is yes, and leaves it to the rest
otherwise. -/
theorem test_ends (config : Config) (skip : Bool) (sub sup : String) {rest : CacheM Bool}
    {found value : Bool} {demands demands' : List Demand} (h : Faithful catalog cache)
    (htest : Ends catalog (isSubtype config catalog.toSource sub sup) cache found demands)
    (hrest : ∀ {later}, Faithful catalog later → cache.graph.Extends later.graph →
      Ends catalog rest later value demands') :
    Ends catalog
      (if skip then pure false >>= fun found => if found then pure true else rest
        else isSubtype config catalog.toSource sub sup >>= fun found =>
          if found then pure true else rest) cache
      (if skip then value else found || value)
      (if skip then demands' else demands ++ if found then [] else demands') := by
  cases skip with
  | true => exact hrest h (.refl _)
  | false =>
    refine htest.bind fun {middle} hmiddle hextend => ?_
    cases found with
    | true => exact .pure hmiddle true
    | false => exact hrest hmiddle hextend

open Classical in
theorem shareSubtype_uniform (hbuilt : catalog.Built) (config : Config)
    (skipForward skipBackward : Bool) (left right : String) :
    Uniform catalog
      (shareSubtype config catalog.toSource skipForward skipBackward left right) := by
  obtain ⟨forward, demands, hforward⟩ := isSubtype_uniform hbuilt config left right
  obtain ⟨backward, demands', hbackward⟩ := isSubtype_uniform hbuilt config right left
  let shared := decide (∃ type, catalog.Below type left ∧ catalog.Below type right)
  let below : List Demand := [.below left, .below right]
  let found := if skipBackward then shared else backward || shared
  let wanted := if skipBackward then below else demands' ++ if backward then [] else below
  refine ⟨if skipForward then found else forward || found, .node left :: .node right ::
    if skipForward then wanted else demands ++ if forward then [] else wanted, fun {cache} h => ?_⟩
  refine .intern_bind h fun {leftId} hleft => ?_
  have hnode := h.withNode left
  refine .intern_bind hnode fun {rightId} hright => ?_
  have hnodes := hnode.withNode right
  have hleft' := ((cache.withNode left).grows_withNode right).extend.lookup hleft
  refine test_ends config skipForward left right hnodes (hforward hnodes)
    fun {middle} hmiddle hextend => ?_
  refine test_ends config skipBackward right left hmiddle (hbackward hmiddle)
    fun {later} hlater hextend' => ?_
  exact sharedBelow_ends hlater hbuilt ((hextend.trans hextend').lookup hleft')
    ((hextend.trans hextend').lookup hright)

/-- Comparing base types is uniform. -/
theorem related_uniform (hbuilt : catalog.Built) (config : Config) (relation : Relation)
    (left right leftBase rightBase : String) :
    Uniform catalog
      (related config catalog.toSource relation left right leftBase rightBase) := by
  cases relation with
  | subtype => exact (liesBelow_uniform hbuilt leftBase rightBase).unless_record
  | common skipForward skipBackward =>
    exact (shareSubtype_uniform hbuilt config skipForward skipBackward leftBase
      rightBase).unless_record

end Bases

/-! ### Comparing written types -/

namespace Engine

open Cache (Faithful Meets)

variable {room : Nat} {engine middle later : Engine} {demands demands' : List Demand}

/-- The counter is back where it was, and in the cache the demands are met. -/
structure Carries (catalog : Catalog) (demands : List Demand) (engine later : Engine) : Prop where
  restored : Restored engine later
  faithful : Faithful catalog later.cache
  extend : engine.cache.graph.Extends later.cache.graph
  meets : Meets catalog demands engine.cache later.cache

namespace Carries

theorem of_cache_eq (h : Faithful catalog engine.cache) (hcache : later.cache = engine.cache)
    (hrestored : Restored engine later) : Carries catalog [] engine later where
  restored := hrestored
  faithful := hcache ▸ h
  extend := hcache ▸ .refl _
  meets := .of_graph_eq (congrArg Cache.graph hcache)

theorem trans (h : Carries catalog demands engine middle)
    (h' : Carries catalog demands' middle later) :
    Carries catalog (demands ++ demands') engine later where
  restored := h.restored.trans h'.restored
  faithful := h'.faithful
  extend := h.extend.trans h'.extend
  meets := h.meets.trans h'.meets

end Carries

/-- From every faithful cache, and with room for as many levels, the action gives the same value and
meets the same demands. -/
def Uniform (catalog : Catalog) (room : Nat) (action : EngineM α) : Prop :=
  ∃ value demands, ∀ engine : Engine, Faithful catalog engine.cache → HasRoom room engine →
    ∃ later, action engine = .ok value later ∧ Carries catalog demands engine later

namespace Uniform

variable {action : EngineM α} {next : α → EngineM β}

theorem pure (value : α) : Uniform catalog room (pure value) :=
  ⟨value, [], fun engine h _ => ⟨engine, rfl, .of_cache_eq h rfl (.of_eq rfl)⟩⟩

theorem bind (h : Uniform catalog room action)
    (hnext : ∀ value, Uniform catalog room (next value)) :
    Uniform catalog room (action >>= next) := by
  obtain ⟨value, demands, haction⟩ := h
  obtain ⟨value', demands', hrest⟩ := hnext value
  refine ⟨value', demands ++ demands', fun engine h hroom => ?_⟩
  obtain ⟨middle, hfirst, hmiddle⟩ := haction engine h hroom
  obtain ⟨later, hsecond, hlater⟩ := hrest middle hmiddle.faithful (hmiddle.restored.hasRoom hroom)
  exact ⟨later, (bind_eq_of_ok hfirst).trans hsecond, hmiddle.trans hlater⟩

theorem onCache {action : CacheM α} (h : Cache.Uniform catalog action) :
    Uniform catalog room (onCache action) := by
  obtain ⟨value, demands, haction⟩ := h
  refine ⟨value, demands, fun engine h _ => ?_⟩
  obtain ⟨later, hresult, hlater, hextend, hmeets⟩ := haction h
  exact ⟨⟨later, engine.nesting⟩, onCache_eq_of_ok hresult, .of_eq rfl, hlater, hextend, hmeets⟩

end Uniform

/-- Pairs of arguments are compared up to the first whose answer is not yes. -/
theorem comparePairs_uniform {compare : String → String → EngineM Answer}
    (hcompare : ∀ left right, Uniform catalog room (compare left right))
    (pairs : List (String × String)) : Uniform catalog room (comparePairs compare pairs) := by
  induction pairs with
  | nil => exact .pure _
  | cons pair pairs ih =>
    obtain ⟨left, right⟩ := pair
    rw [comparePairs]
    refine (hcompare left right).bind fun answer => ?_
    rcases answer with error | ⟨_ | _⟩
    · exact .pure _
    · exact .pure _
    · exact ih

/-- Without room for another level, arguments count as unrelated. -/
theorem compareArguments_uniform_zero (compare : String → String → EngineM Answer)
    (left right : List String) : Uniform catalog 0 (compareArguments compare left right) := by
  rw [compareArguments]
  split
  · exact (Uniform.onCache (.record _)).bind fun _ => .pure _
  · refine ⟨.ok false, [], fun engine h hroom => ?_⟩
    exact ⟨⟨engine.cache.withEvent (.nestedTooDeep engine.nesting.maxDepth),
      { engine.nesting with exceeded := true }⟩, bind_eq_of_ok (enter_eq_zero hroom),
      ⟨rfl, rfl⟩, h.withEvent _, .refl _, .of_graph_eq rfl⟩

/-- With room for another level, arguments are compared by position, and the level is left again. -/
theorem compareArguments_uniform_succ {compare : String → String → EngineM Answer}
    (hcompare : ∀ left right, Uniform catalog room (compare left right))
    (left right : List String) :
    Uniform catalog (room + 1) (compareArguments compare left right) := by
  rw [compareArguments]
  split
  · exact (Uniform.onCache (.record _)).bind fun _ => .pure _
  · obtain ⟨answer, demands, hpairs⟩ := comparePairs_uniform hcompare (left.zip right)
    refine ⟨answer, demands, fun engine h hroom => ?_⟩
    obtain ⟨⟨later, nesting⟩, hresult, ⟨hmax, hdepth⟩, hlater, hextend, hmeets⟩ :=
      hpairs ⟨engine.cache, { engine.nesting with depth := engine.nesting.depth + 1 }⟩ h hroom.enter
    refine ⟨⟨later, { nesting with depth := engine.nesting.depth }⟩, ?_, ⟨hmax, rfl⟩,
      hlater, hextend, hmeets⟩
    refine (bind_eq_of_ok (enter_eq_succ hroom)).trans ?_
    exact (bind_eq_of_ok hresult).trans (bind_eq_of_ok (leave_eq_of_depth hdepth))

theorem rawVerdict?_uniform (relation : Relation) (left right : TypeUse) :
    Cache.Uniform catalog (rawVerdict? relation left right) := by
  cases relation with
  | subtype =>
    rw [rawVerdict?]
    split
    · exact .pure _
    · split
      · exact (Cache.Uniform.record _).bind fun _ => .pure _
      · exact .pure none
  | common _ _ => exact .pure _

/-- One level of a question, given how argument lists are compared. -/
theorem relateWith_uniform (hbuilt : catalog.Built) (config : Config)
    {compare : Relation → String → String → EngineM Answer}
    (hdescend : ∀ relation left right,
      Uniform catalog room (compareArguments (compare relation) left right))
    (relation : Relation) (left right : String) :
    Uniform catalog room (relateWith config catalog.toSource compare relation left right) := by
  rw [relateWith]
  cases config.verdict? relation left right with
  | some verdict => exact .pure _
  | none =>
    rcases readBoth TypeUse.parse left right with error | ⟨leftUse, rightUse⟩
    · exact .pure _
    refine (Uniform.onCache (Bases.related_uniform hbuilt config relation left right leftUse.base
      rightUse.base)).bind fun related => ?_
    cases related with
    | false => exact .pure _
    | true =>
      refine (Uniform.onCache (rawVerdict?_uniform relation leftUse rightUse)).bind fun raw => ?_
      cases raw with
      | some verdict => exact .pure _
      | none =>
        dsimp only
        rcases readBoth TypeUse.arguments leftUse rightUse with error | ⟨lefts, rights⟩
        · exact .pure _
        · exact hdescend relation.onArguments lefts rights

/-- Answering a question is uniform. -/
theorem relate_uniform (hbuilt : catalog.Built) (config : Config) (room : Nat) :
    ∀ relation left right,
      Uniform catalog room (relate config catalog.toSource room relation left right) := by
  induction room with
  | zero =>
    exact relateWith_uniform hbuilt config fun _ => compareArguments_uniform_zero _
  | succ room ih =>
    exact relateWith_uniform hbuilt config fun relation =>
      compareArguments_uniform_succ (ih relation)

end Engine

/-- A new engine answers a question uniformly. -/
theorem Cache.withEngine_uniform (hbuilt : catalog.Built) (config : Config) (relation : Relation)
    (left right : String) :
    Uniform catalog
      (withEngine config (Engine.answer config catalog.toSource relation left right)) := by
  obtain ⟨answer, demands, hrelate⟩ :=
    Engine.relate_uniform hbuilt config config.maxGenericDepth relation left right
  refine ⟨answer, demands, fun {cache} h => ?_⟩
  obtain ⟨⟨later, nesting⟩, hanswer, hcarries⟩ :=
    hrelate ⟨cache, { maxDepth := config.maxGenericDepth }⟩ h (Nat.zero_add _).symm
  exact ⟨later, withEngine_eq_of_ok hanswer hcarries.restored.depth_eq, hcarries.faithful,
    hcarries.extend, hcarries.meets⟩

end NominalSubtyping
