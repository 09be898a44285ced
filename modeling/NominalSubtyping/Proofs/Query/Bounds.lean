import NominalSubtyping.Proofs.Cache.Outcome
import NominalSubtyping.Proofs.Query.Revision

/-!
# Answers between what was known and what is known

A question is answered while the graph grows: names are loaded on the way, and two pairs of
arguments may be compared in different graphs. If the graphs track a relation, the answer lies
*between* the ideal answers over the relation as it was before and as it is after the question. So a
yes holds afterwards, and what could be answered with yes before is answered with yes. The same is
true of a refusal.

## Main definitions

* `Ideal.IsSubtype` : what the subtype question about two names should be answered.
* `Engine.Answers` : an engine gives an answer between two ideal ones, and its counter back.

## Main results

* `Bases.related_leads` : base types are compared by what the graphs track.
* `Engine.relate_answers` : an engine gives answers between the ideal ones.
* `Cache.withEngine_leads` : so does a new engine.
-/

open Relation (ReflTransGen)

namespace NominalSubtyping

variable {α : Type} {source : Source} {fit : Cache → Prop}
  {below : Cache → (sub sup : String) → Prop} {config : Config}

/-! ### Three tests for a common subtype -/

namespace Ideal

variable {below larger : (sub sup : String) → Prop} {sub sup left right : String}

/-- What the subtype question about two names should be answered. -/
def IsSubtype (config : Config) (below : (sub sup : String) → Prop) (sub sup : String) : Prop :=
  match config.verdict? .subtype sub sup with
  | some verdict => verdict = true
  | none => below sub sup

theorem IsSubtype.mono (h : ∀ {sub sup}, below sub sup → larger sub sup)
    (hsub : IsSubtype config below sub sup) : IsSubtype config larger sub sup := by
  rw [IsSubtype] at hsub ⊢
  cases hverdict : config.verdict? .subtype sub sup with
  | some verdict =>
    rw [hverdict] at hsub
    exact hsub
  | none =>
    rw [hverdict] at hsub
    exact h hsub

theorem isSubtype_of_isRoot (h : config.isRoot sup = true) : IsSubtype config below sub sup := by
  rw [IsSubtype, Config.verdict?, if_pos h]

/-- A subtype question is answered yes about the root, and otherwise about a name below. -/
theorem IsSubtype.root_or_below (h : IsSubtype config below sub sup)
    (hrefl : ∀ name, below name name) : config.isRoot sup = true ∨ below sub sup := by
  rw [IsSubtype, Config.verdict?] at h
  by_cases hroot : config.isRoot sup = true
  · exact Or.inl hroot
  · rw [if_neg hroot] at h
    refine Or.inr ?_
    by_cases hsub : config.isVoid sub = true
    · -- The void type is a subtype of nothing but itself.
      rw [if_pos hsub] at h
      have hsame : sub = sup := (of_decide_eq_true hsub).trans (of_decide_eq_true h).symm
      rw [← hsame]
      exact hrefl sub
    · rw [if_neg hsub] at h
      by_cases hsup : config.isVoid sup = true
      · rw [if_pos hsup] at h
        cases h
      · rwa [if_neg hsup] at h

/-- Three tests are one condition. -/
theorem related_common_iff_tests (hrefl : ∀ name, below name name)
    {skipForward skipBackward : Bool} :
    related config below (.common skipForward skipBackward) left right = true ↔
      (skipForward = false ∧ IsSubtype config below left right) ∨
        (skipBackward = false ∧ IsSubtype config below right left) ∨
          ∃ type, below type left ∧ below type right := by
  classical
  simp only [related, Bool.or_eq_true, Bool.and_eq_true, Bool.not_eq_true', decide_eq_true_iff]
  constructor
  · rintro ((⟨hskip, hroot⟩ | ⟨hskip, hroot⟩) | hshared)
    · exact Or.inl ⟨hskip, isSubtype_of_isRoot hroot⟩
    · exact Or.inr (Or.inl ⟨hskip, isSubtype_of_isRoot hroot⟩)
    · exact Or.inr (Or.inr hshared)
  · rintro (⟨hskip, hsub⟩ | ⟨hskip, hsub⟩ | hshared)
    · exact (hsub.root_or_below hrefl).imp (fun hroot => Or.inl ⟨hskip, hroot⟩)
        fun hb => ⟨left, hrefl left, hb⟩
    · exact (hsub.root_or_below hrefl).imp (fun hroot => Or.inr ⟨hskip, hroot⟩)
        fun hb => ⟨right, hb, hrefl right⟩
    · exact Or.inr hshared

end Ideal

/-! ### Comparing base types -/

namespace Bases

open Cache

variable {cache : Cache} (ht : Tracks source fit below) (hfit : fit cache)

include ht hfit

/-- A name is found below another one if it was there before, and only if it is there after. -/
theorem liesBelow_leads (sub sup : String) :
    Leads source fit id (liesBelow source sub sup) cache fun verdict later =>
      Between (· → ·) (below · sub sup) cache (verdict = true) later := by
  refine (ht.intern_leads hfit sub).bind fun {subId first} hfirst hextend hsub => ?_
  refine (ht.intern_leads hfirst sup).bind fun {supId second} hsecond hextend' hsup => ?_
  refine (ht.load_leads hsecond sup).discard.bind fun {_ later} hlater hgrown hloaded => ?_
  obtain ⟨-, hshown⟩ := hloaded
  obtain ⟨verdict, hancestor, hiff⟩ := TypeGraph.isAncestor_eq (ht.wellFormed hlater)
    (hgrown.lookup (hextend'.lookup hsub)) (hgrown.lookup hsup)
  refine (Tracks.inspect_leads hlater hancestor).mono ?_
  rintro _ _ - - ⟨rfl, rfl⟩
  refine ⟨fun hb => hiff.2 (hshown ?_), fun hv => ht.sound hlater (hiff.1 hv)⟩
  exact ht.grow hsecond (hextend.trans hextend') hb

theorem isSubtype_leads (config : Config) (sub sup : String) :
    Leads source fit id (isSubtype config source sub sup) cache fun verdict later =>
      Between (· → ·) (fun cache => Ideal.IsSubtype config (below cache) sub sup) cache
        (verdict = true) later := by
  rw [isSubtype]
  simp only [Between, Ideal.IsSubtype]
  cases config.verdict? .subtype sub sup with
  | some verdict => exact .pure hfit ⟨fun h => h, fun h => h⟩
  | none => exact ht.unless_record_leads (liesBelow_leads ht hfit sub sup) fun h => (by cases h)

/-- Once everything below two names has been loaded, what lies below both is found. -/
theorem sharedBelow_leads {left right : String} {leftId rightId : NodeId}
    (hleft : cache.graph.lookup left = some leftId)
    (hright : cache.graph.lookup right = some rightId) :
    Leads source fit id (do
      discard (load source left)
      discard (load source right)
      let leftBelow ← inspect (·.subtypeClosure leftId)
      let rightBelow ← inspect (·.subtypeClosure rightId)
      return overlap leftBelow rightBelow) cache fun verdict later =>
        Between (· → ·) (fun cache => ∃ type, below cache type left ∧ below cache type right) cache
          (verdict = true) later := by
  refine (ht.load_leads hfit left).discard.bind fun {_ middle} hmiddle hextend hloaded => ?_
  obtain ⟨-, hshown⟩ := hloaded
  refine (ht.load_leads hmiddle right).discard.bind fun {_ later} hlater hextend' hloaded => ?_
  obtain ⟨-, hshown'⟩ := hloaded
  obtain ⟨leftBelow, rightBelow, hclosure, hclosure', hiff⟩ := TypeGraph.subtypeClosure_meet_eq
    (ht.wellFormed hlater) (hextend'.lookup (hextend.lookup hleft))
    (hextend'.lookup (hextend.lookup hright))
  refine (Tracks.inspect_leads hlater hclosure).bind ?_
  rintro _ _ - - ⟨rfl, rfl⟩
  refine (Tracks.inspect_leads hlater hclosure').bind ?_
  rintro _ _ - - ⟨rfl, rfl⟩
  refine .pure hlater ⟨?_, fun hany => ?_⟩
  · rintro ⟨type, hb, hb'⟩
    exact overlap_eq_true_iff.2
      (hiff.2 ⟨type, hextend'.liesBelow (hshown hb), hshown' (ht.grow hmiddle hextend hb')⟩)
  · obtain ⟨type, hb, hb'⟩ := hiff.1 (overlap_eq_true_iff.1 hany)
    exact ⟨type, ht.sound hlater hb, ht.sound hlater hb'⟩

/-- A test that may be skipped decides the question if its verdict is yes, and leaves it to the rest
otherwise. -/
theorem test_leads (config : Config) (skip : Bool) (sub sup : String) {rest : CacheM Bool}
    {state : Cache → Prop} (hlasting : Lasting fit (· → ·) state)
    (hrest : ∀ {later}, fit later → cache.graph.Extends later.graph →
      Leads source fit id rest later fun verdict last =>
        Between (· → ·) state later (verdict = true) last) :
    Leads source fit id
      (if skip then pure false >>= fun found => if found then pure true else rest
        else isSubtype config source sub sup >>= fun found => if found then pure true else rest)
      cache fun verdict later =>
        Between (· → ·)
          (fun cache => (skip = false ∧ Ideal.IsSubtype config (below cache) sub sup) ∨ state cache)
          cache (verdict = true) later := by
  cases skip with
  | true =>
    refine (hrest hfit (.refl _)).mono fun _ _ hverdict => ⟨?_, fun hv => ?_⟩
    · rintro (⟨hskip, -⟩ | hstate)
      · cases hskip
      · exact hverdict.1 hstate
    · exact Or.inr (hverdict.2 hv)
  | false =>
    refine (isSubtype_leads ht hfit config sub sup).bind
      fun {found later} hlater hextend hfound => ?_
    cases found with
    | true => exact .pure hlater ⟨fun _ => rfl, fun _ => Or.inl ⟨rfl, hfound.2 rfl⟩⟩
    | false =>
      refine (hrest hlater hextend).mono fun _ _ hverdict => ⟨?_, fun hv => ?_⟩
      · rintro (⟨-, hsub⟩ | hstate)
        · cases hfound.1 hsub
        · exact hverdict.1 (hlasting hlater hextend hstate)
      · exact Or.inr (hverdict.2 hv)

/-- Two names are found to have a common subtype if they had one before, and only if they have one
after. -/
theorem shareSubtype_leads (config : Config) (skipForward skipBackward : Bool)
    (left right : String) :
    Leads source fit id (shareSubtype config source skipForward skipBackward left right) cache
      fun verdict later => Between (· → ·)
        (fun cache => Ideal.related config (below cache) (.common skipForward skipBackward) left
          right = true) cache (verdict = true) later := by
  have hshared : Lasting fit (· → ·)
      fun cache => ∃ type, below cache type left ∧ below cache type right := by
    rintro cache later hlater hextend ⟨type, hl, hr⟩
    exact ⟨type, ht.grow hlater hextend hl, ht.grow hlater hextend hr⟩
  have hsubtype {sub sup : String} : Lasting fit (· → ·)
      fun cache => Ideal.IsSubtype config (below cache) sub sup := fun _ _ hlater hextend =>
    Ideal.IsSubtype.mono (ht.grow hlater hextend)
  refine (ht.intern_leads hfit left).bind fun {leftId first} hfirst hextend hleft => ?_
  refine (ht.intern_leads hfirst right).bind fun {rightId second} hsecond hextend' hright => ?_
  refine (test_leads ht hsecond config skipForward left right
    (fun _ _ hlater hgrown => Or.imp (And.imp_right (hsubtype hlater hgrown))
      (hshared hlater hgrown))
    (fun {third} hthird hgrown => test_leads ht hthird config skipBackward right left hshared
      fun {last} hlast hgrown' => sharedBelow_leads ht hlast
        ((hextend'.trans (hgrown.trans hgrown')).lookup hleft)
        ((hgrown.trans hgrown').lookup hright))).mono
          fun {verdict later} hlater _ hverdict => ⟨fun hrelated => hverdict.1 ?_, fun hv => ?_⟩
  · refine (Ideal.related_common_iff_tests fun name => ht.sound hsecond ReflTransGen.refl).1 ?_
    exact Ideal.related_mono (ht.grow hsecond (hextend.trans hextend')) hrelated
  · exact (Ideal.related_common_iff_tests fun name => ht.sound hlater ReflTransGen.refl).2
      (hverdict.2 hv)

/-- Base types are compared by what the graphs track. -/
theorem related_leads (config : Config) (relation : Relation)
    (left right leftBase rightBase : String) :
    Leads source fit id (related config source relation left right leftBase rightBase) cache
      fun verdict later => Between (· → ·)
        (fun cache => Ideal.related config (below cache) relation leftBase rightBase = true) cache
        (verdict = true) later := by
  cases relation with
  | subtype =>
    simp only [Ideal.related_subtype_iff]
    exact ht.unless_record_leads (liesBelow_leads ht hfit leftBase rightBase) fun h => (by cases h)
  | common skipForward skipBackward =>
    exact ht.unless_record_leads
      (shareSubtype_leads ht hfit config skipForward skipBackward leftBase rightBase)
      fun h => (by cases h)

end Bases

/-! ### Comparing written types -/

namespace Engine

open Answer (MayBecome)
open Cache (Tracks Lasting Between)

variable {room : Nat} {engine later : Engine}

/-- The counter leaves `room` more levels. -/
def HasRoom (room : Nat) (engine : Engine) : Prop :=
  engine.nesting.maxDepth = engine.nesting.depth + room

/-- The counter stands at the depth at which it stood; a level may have been refused meanwhile. -/
structure Restored (engine later : Engine) : Prop where
  maxDepth_eq : later.nesting.maxDepth = engine.nesting.maxDepth
  depth_eq : later.nesting.depth = engine.nesting.depth

namespace Restored

theorem of_eq (h : later.nesting = engine.nesting) : Restored engine later :=
  ⟨congrArg _ h, congrArg _ h⟩

theorem trans {last : Engine} (h : Restored engine later) (h' : Restored later last) :
    Restored engine last :=
  ⟨h'.maxDepth_eq.trans h.maxDepth_eq, h'.depth_eq.trans h.depth_eq⟩

theorem hasRoom (h : Restored engine later) (hroom : HasRoom room engine) : HasRoom room later := by
  rw [HasRoom, h.maxDepth_eq, h.depth_eq]
  exact hroom

end Restored

/-- The action leads to an answer between the ideal ones before and after, and gives the counter
back at the depth at which it was taken. -/
def Answers (source : Source) (fit : Cache → Prop) (ideal : Cache → Answer)
    (action : EngineM Answer) (engine : Engine) : Prop :=
  Leads source fit Engine.cache action engine fun answer later =>
    Restored engine later ∧ Between MayBecome ideal engine.cache answer later.cache

theorem answers_pure {ideal : Cache → Answer} {answer : Answer} (hfit : fit engine.cache)
    (h : ideal engine.cache = answer) : Answers source fit ideal (pure answer) engine :=
  .pure hfit ⟨.of_eq rfl, h ▸ .refl _, h ▸ .refl _⟩

theorem onCache_eq_of_ok {action : CacheM α} {value : α} {cache : Cache}
    (h : action engine.cache = .ok value cache) :
    onCache action engine = .ok value ⟨cache, engine.nesting⟩ := by
  obtain ⟨_, _⟩ := engine
  simp only [onCache, focus] at h ⊢
  rw [h]

theorem onCache_eq_of_error {action : CacheM α} {fault : Fault} {cache : Cache}
    (h : action engine.cache = .error fault cache) :
    onCache action engine = .error fault ⟨cache, engine.nesting⟩ := by
  obtain ⟨_, _⟩ := engine
  simp only [onCache, focus] at h ⊢
  rw [h]

theorem onCache_leads {action : CacheM α} {post : α → Cache → Prop}
    (h : Leads source fit id action engine.cache post) :
    Leads source fit Engine.cache (onCache action) engine fun value later =>
      later.nesting = engine.nesting ∧ post value later.cache := by
  rcases h.cases with ⟨value, later, haction, hfit, hextend, hpost⟩ |
    ⟨fault, later, haction, hfit, hextend, hcrash⟩
  · exact .of_ok (onCache_eq_of_ok haction) hfit hextend ⟨rfl, hpost⟩
  · exact .of_error (onCache_eq_of_error haction) hfit hextend hcrash

/-- A no is recorded and given as the answer. -/
theorem record_no_answers (ht : Tracks source fit below) (hfit : fit engine.cache) {event : Event}
    (hevent : event.channel ≠ .graph) :
    Answers source fit (fun _ => .ok false)
      (onCache (Cache.record event) >>= fun _ => pure (.ok false)) engine := by
  refine (onCache_leads (ht.record_leads hfit hevent)).bind fun hlater _ hrecord => ?_
  exact .pure hlater ⟨.of_eq hrecord.1, .refl _, .refl _⟩

/-! #### Levels of arguments -/

/-- A counter at its bound refuses, any other goes one level down. -/
theorem enter_eq (engine : Engine) : enter engine =
    if engine.nesting.maxDepth ≤ engine.nesting.depth then
      .ok false ⟨engine.cache, { engine.nesting with exceeded := true }⟩
    else
      .ok true ⟨engine.cache, { engine.nesting with depth := engine.nesting.depth + 1 }⟩ := by
  rw [enter, Counter.enter]
  by_cases hfull : engine.nesting.maxDepth ≤ engine.nesting.depth
  · rw [if_pos hfull, if_pos hfull]
  · rw [if_neg hfull, if_neg hfull]

/-- A counter that leaves no room refuses. -/
theorem enter_eq_zero (hroom : HasRoom 0 engine) :
    enter engine = .ok false ⟨engine.cache, { engine.nesting with exceeded := true }⟩ := by
  rw [enter_eq]
  exact if_pos (Nat.le_of_eq hroom)

/-- A counter that leaves room goes one level down. -/
theorem enter_eq_succ (hroom : HasRoom (room + 1) engine) :
    enter engine =
      .ok true ⟨engine.cache, { engine.nesting with depth := engine.nesting.depth + 1 }⟩ := by
  have hfree : ¬ engine.nesting.maxDepth ≤ engine.nesting.depth := by
    rw [HasRoom] at hroom
    omega
  rw [enter_eq, if_neg hfree]

/-- Below the first level a counter goes one level up. -/
theorem leave_eq_of_depth {depth : Nat} (hdepth : engine.nesting.depth = depth + 1) :
    leave engine = .ok ⟨⟩ ⟨engine.cache, { engine.nesting with depth }⟩ := by
  change ((MonadExcept.ofExcept engine.nesting.leave : EngineM Counter) >>= fun nesting =>
    modify fun engine => { engine with nesting }) engine = _
  rw [Counter.leave, hdepth, if_neg (Nat.succ_ne_zero _)]
  rfl

/-- One level further down there is one level less. -/
theorem HasRoom.enter (hroom : HasRoom (room + 1) engine) : HasRoom room
    ⟨engine.cache, { engine.nesting with depth := engine.nesting.depth + 1 }⟩ := by
  simp only [HasRoom] at hroom ⊢
  omega

theorem enter_leads_zero (hfit : fit engine.cache) (hroom : HasRoom 0 engine) :
    Leads source fit Engine.cache enter engine fun entered later =>
      entered = false ∧ Restored engine later :=
  .of_ok (enter_eq_zero hroom) hfit (.refl _) ⟨rfl, rfl, rfl⟩

theorem enter_leads_succ (hfit : fit engine.cache) (hroom : HasRoom (room + 1) engine) :
    Leads source fit Engine.cache enter engine fun entered later => entered = true ∧
      later = ⟨engine.cache, { engine.nesting with depth := engine.nesting.depth + 1 }⟩ :=
  .of_ok (enter_eq_succ hroom) hfit (.refl _) ⟨rfl, rfl⟩

theorem leave_leads {depth : Nat} (hfit : fit engine.cache)
    (hdepth : engine.nesting.depth = depth + 1) :
    Leads source fit Engine.cache leave engine fun _ later =>
      later = ⟨engine.cache, { engine.nesting with depth }⟩ :=
  .of_ok (leave_eq_of_depth hdepth) hfit (.refl _) rfl

/-- Pairs of arguments are compared up to the first whose answer is not yes. -/
theorem comparePairs_answers {compare : String → String → EngineM Answer}
    {ideal : Cache → String → String → Answer}
    (hlasting : ∀ left right, Lasting fit MayBecome (ideal · left right))
    (hcompare : ∀ {engine : Engine}, fit engine.cache → HasRoom room engine → ∀ left right,
      Answers source fit (ideal · left right) (compare left right) engine)
    (pairs : List (String × String)) :
    ∀ {engine : Engine}, fit engine.cache → HasRoom room engine →
      Answers source fit (fun cache => Ideal.allPairs (ideal cache) pairs)
        (comparePairs compare pairs) engine := by
  induction pairs with
  | nil => exact fun hfit _ => answers_pure hfit rfl
  | cons pair pairs ih =>
    intro engine hfit hroom
    obtain ⟨left, right⟩ := pair
    simp only [Answers, Ideal.allPairs_cons]
    rw [comparePairs]
    refine (hcompare hfit hroom left right).bind fun {answer later} hlater hextend hanswer => ?_
    obtain ⟨hrestored, hbefore, hafter⟩ := hanswer
    have hrest := Ideal.allPairs_mono (fun left right => hlasting left right hlater hextend) pairs
    have hstop (hyes : answer ≠ .ok true) :
        Between MayBecome (fun cache => Ideal.followed (ideal cache left right)
          (Ideal.allPairs (ideal cache) pairs)) engine.cache answer later.cache := by
      rw [← Ideal.followed_of_ne_yes hyes (Ideal.allPairs (ideal later.cache) pairs)]
      exact ⟨Ideal.followed_mono hbefore hrest, Ideal.followed_mono hafter (.refl _)⟩
    rcases answer with error | ⟨_ | _⟩
    · exact .pure hlater ⟨hrestored, hstop fun h => (by cases h)⟩
    · exact .pure hlater ⟨hrestored, hstop fun h => (by cases h)⟩
    · refine (ih hlater (hrestored.hasRoom hroom)).mono
        fun {answer' last} hlast hextend' hanswer' => ?_
      obtain ⟨hrestored', hbefore', hafter'⟩ := hanswer'
      exact ⟨hrestored.trans hrestored', Ideal.followed_mono hbefore (hrest.trans hbefore'),
        Ideal.followed_mono (hafter.trans (hlasting left right hlast hextend')) hafter'⟩

/-- Without room for another level, arguments count as unrelated. -/
theorem compareArguments_answers_zero (ht : Tracks source fit below) (hfit : fit engine.cache)
    (hroom : HasRoom 0 engine) (compare : String → String → EngineM Answer)
    (left right : List String) :
    Answers source fit (fun _ => .ok false) (compareArguments compare left right) engine := by
  rw [compareArguments]
  split
  · exact record_no_answers ht hfit fun h => (by cases h)
  · refine (enter_leads_zero hfit hroom).bind ?_
    rintro _ later hlater - ⟨rfl, hrestored⟩
    rw [if_neg Bool.false_ne_true]
    have hno : Answers source fit (fun _ => .ok false) (get >>= fun engine =>
        onCache (Cache.record (.nestedTooDeep engine.nesting.maxDepth)) >>= fun _ =>
          pure (.ok false)) later :=
      record_no_answers ht hlater fun h => (by cases h)
    exact hno.mono fun _ _ hanswer => ⟨hrestored.trans hanswer.1, hanswer.2⟩

/-- With room for another level, arguments are compared by position, and the level is left again. -/
theorem compareArguments_answers_succ (ht : Tracks source fit below) (hfit : fit engine.cache)
    (hroom : HasRoom (room + 1) engine) {compare : String → String → EngineM Answer}
    {ideal : Cache → String → String → Answer}
    (hlasting : ∀ left right, Lasting fit MayBecome (ideal · left right))
    (hcompare : ∀ {engine : Engine}, fit engine.cache → HasRoom room engine → ∀ left right,
      Answers source fit (ideal · left right) (compare left right) engine)
    (left right : List String) :
    Answers source fit
      (fun cache => if left.length = right.length then
        Ideal.allPairs (ideal cache) (left.zip right) else .ok false)
      (compareArguments compare left right) engine := by
  rw [compareArguments]
  by_cases hlength : left.length = right.length
  · rw [if_neg (not_not.2 hlength)]
    simp only [if_pos hlength]
    refine (enter_leads_succ hfit hroom).bind ?_
    rintro _ _ hentered - ⟨rfl, rfl⟩
    refine (comparePairs_answers hlasting hcompare (left.zip right) hentered hroom.enter).bind
      fun {answer later} hlater hextend hanswer => ?_
    obtain ⟨⟨hmax, hdepth⟩, hbetween⟩ := hanswer
    refine (leave_leads hlater hdepth).bind ?_
    rintro _ _ hlast - rfl
    exact .pure hlast ⟨⟨hmax, rfl⟩, hbetween⟩
  · rw [if_pos hlength]
    simp only [if_neg hlength]
    exact record_no_answers ht hfit fun h => (by cases h)

/-! #### One level of a question -/

theorem rawVerdict?_leads {cache : Cache} (ht : Tracks source fit below) (hfit : fit cache)
    (relation : Relation) (left right : TypeUse) :
    Leads source fit id (rawVerdict? relation left right) cache fun verdict _ =>
      verdict = Ideal.rawVerdict? relation left right := by
  cases relation with
  | subtype =>
    rw [rawVerdict?, Ideal.rawVerdict?]
    split
    · exact .pure hfit rfl
    · split
      · exact (ht.record_leads hfit fun h => (by cases h)).bind fun hlater _ _ => .pure hlater rfl
      · exact .pure hfit rfl
  | common _ _ => exact .pure hfit rfl

/-- The arguments of two type uses are read and compared. -/
theorem readArguments_answers {compare : String → String → EngineM Answer}
    {descend : Cache → List (String × String) → Answer}
    (hdescend : ∀ left right, Answers source fit
      (fun cache => if left.length = right.length then descend cache (left.zip right)
        else .ok false)
      (compareArguments compare left right) engine)
    (hfit : fit engine.cache) (left right : TypeUse) :
    Answers source fit (fun cache => Ideal.compareArguments (descend cache) left right)
      (match readBoth TypeUse.arguments left right with
        | .error error => pure (.error error)
        | .ok (lefts, rights) => compareArguments compare lefts rights) engine := by
  simp only [Ideal.compareArguments]
  rcases readBoth TypeUse.arguments left right with error | ⟨lefts, rights⟩
  · exact answers_pure hfit rfl
  · exact hdescend lefts rights

/-- An answer that is put together from what was found about the base types and, later on, about the
arguments. -/
theorem staged_between {related : Cache → Bool} {arguments : Cache → Answer}
    (hrelated : Lasting fit (· → ·) (related · = true))
    (harguments : Lasting fit MayBecome arguments)
    (raw : Option Bool) {before middle : Cache} {verdict : Bool} (hmiddle : fit middle)
    (hextend : before.graph.Extends middle.graph)
    (hverdict : Between (· → ·) (related · = true) before (verdict = true) middle)
    ⦃last : Cache⦄ ⦃answer : Answer⦄ (hlast : fit last) (hextend' : middle.graph.Extends last.graph)
    (hanswer : Between MayBecome arguments middle answer last) :
    Between MayBecome (fun cache => Ideal.staged (related cache) raw (arguments cache)) before
      (Ideal.staged verdict raw answer) last :=
  ⟨Ideal.staged_mono hverdict.1 raw ((harguments hmiddle hextend).trans hanswer.1),
    Ideal.staged_mono (fun hyes => hrelated hlast hextend' (hverdict.2 hyes)) raw hanswer.2⟩

/-- One level of a question, given how argument lists are compared. -/
theorem relateWith_answers (ht : Tracks source fit below) (config : Config)
    {compare : Relation → String → String → EngineM Answer}
    {descend : Cache → Relation → List (String × String) → Answer}
    (hlasting : ∀ relation pairs, Lasting fit MayBecome (descend · relation pairs))
    (hdescend : ∀ {engine : Engine}, fit engine.cache → HasRoom room engine →
      ∀ relation left right, Answers source fit
        (fun cache => if left.length = right.length then
          descend cache relation (left.zip right) else .ok false)
        (compareArguments (compare relation) left right) engine)
    (hfit : fit engine.cache) (hroom : HasRoom room engine) (relation : Relation)
    (left right : String) :
    Answers source fit
      (fun cache => Ideal.answerWith config (below cache) (descend cache) relation left right)
      (relateWith config source compare relation left right) engine := by
  simp only [relateWith, Ideal.answerWith]
  cases config.verdict? relation left right with
  | some verdict => exact answers_pure hfit rfl
  | none =>
    rcases readBoth TypeUse.parse left right with error | ⟨leftUse, rightUse⟩
    · exact answers_pure hfit rfl
    dsimp only
    have hrelated : Lasting fit (· → ·) fun cache =>
        Ideal.related config (below cache) relation leftUse.base rightUse.base = true :=
      fun _ _ hlater hextend => Ideal.related_mono (ht.grow hlater hextend)
    have harguments : Lasting fit MayBecome fun cache =>
        Ideal.compareArguments (descend cache relation.onArguments) leftUse rightUse :=
      fun _ _ hlater hextend => Ideal.compareArguments_mono
        (fun pairs => hlasting relation.onArguments pairs hlater hextend) leftUse rightUse
    refine (onCache_leads (Bases.related_leads ht hfit config relation left right leftUse.base
      rightUse.base)).bind fun {verdict middle} hmiddle hextend hverdict => ?_
    obtain ⟨hnesting, hverdict⟩ := hverdict
    have hstaged := staged_between hrelated harguments
      (Ideal.rawVerdict? relation leftUse rightUse) hmiddle hextend hverdict
    cases verdict with
    | false =>
      exact .pure hmiddle ⟨.of_eq hnesting, hstaged hmiddle (.refl _) ⟨.refl _, .refl _⟩⟩
    | true =>
      refine (onCache_leads (rawVerdict?_leads ht hmiddle relation leftUse rightUse)).bind ?_
      rintro _ later hlater hextend' ⟨hnesting', rfl⟩
      have hrestored : Restored engine later := .of_eq (hnesting'.trans hnesting)
      cases hraw : Ideal.rawVerdict? relation leftUse rightUse with
      | some verdict =>
        rw [hraw] at hstaged
        exact .pure hlater
          ⟨hrestored, hstaged hlater hextend' ⟨harguments hlater hextend', .refl _⟩⟩
      | none =>
        rw [hraw] at hstaged
        refine (readArguments_answers
          (hdescend hlater (hrestored.hasRoom hroom) relation.onArguments) hlater leftUse
          rightUse).mono fun hlast hextend'' hanswer => ?_
        obtain ⟨hrestored', hbefore, hafter⟩ := hanswer
        exact ⟨hrestored.trans hrestored', hstaged hlast (hextend'.trans hextend'')
          ⟨(harguments hlater hextend').trans hbefore, hafter⟩⟩

/-- In a graph that has grown, nothing but a no is revised. -/
theorem answer_lasting (ht : Tracks source fit below) (config : Config) (room : Nat)
    (relation : Relation) (left right : String) : Lasting fit MayBecome
      fun cache => Ideal.answer config (below cache) room relation left right :=
  fun _ _ hlater hextend => Ideal.answer_mono (ht.grow hlater hextend) room relation left right

/-- An engine gives answers between the ideal ones. -/
theorem relate_answers (ht : Tracks source fit below) (config : Config) (room : Nat) :
    ∀ {engine : Engine}, fit engine.cache → HasRoom room engine → ∀ relation left right,
      Answers source fit
        (fun cache => Ideal.answer config (below cache) room relation left right)
        (relate config source room relation left right) engine := by
  induction room with
  | zero =>
    intro engine hfit hroom
    refine relateWith_answers ht config (fun _ _ _ _ _ _ => .refl _)
      (fun hfit hroom relation left right => ?_) hfit hroom
    simp only [ite_self]
    exact compareArguments_answers_zero ht hfit hroom _ left right
  | succ room ih =>
    have hlasting (relation : Relation) (left right : String) :=
      answer_lasting ht config room relation left right
    have hpairs (relation : Relation) (pairs : List (String × String)) : Lasting fit MayBecome
        fun cache => Ideal.allPairs (Ideal.answer config (below cache) room relation) pairs :=
      fun _ _ hlater hextend => Ideal.allPairs_mono
        (fun left right => hlasting relation left right hlater hextend) pairs
    intro engine hfit hroom
    refine relateWith_answers ht config hpairs
      (fun hfit hroom relation left right => ?_) hfit hroom
    exact compareArguments_answers_succ ht hfit hroom (hlasting relation)
      (fun hfit hroom => ih hfit hroom relation) left right

end Engine

namespace Cache

/-- An engine is given up without a fault once its counter is back at the top. -/
theorem withEngine_eq_of_ok {cache later : Cache} {action : EngineM α} {value : α}
    {nesting : Counter}
    (h : action ⟨cache, { maxDepth := config.maxGenericDepth }⟩ = .ok value ⟨later, nesting⟩)
    (hdepth : nesting.depth = 0) : withEngine config action cache = .ok value later := by
  have hcounting : counting config.maxGenericDepth action cache = .ok (value, nesting) later := by
    rw [counting, h]
  have hclose : (MonadExcept.ofExcept nesting.close : CacheM Unit) later = .ok () later := by
    rw [Counter.close, if_pos hdepth]
    rfl
  exact (bind_eq_of_ok hcounting).trans (bind_eq_of_ok hclose)

theorem withEngine_eq_of_error {cache later : Cache} {action : EngineM α} {fault : Fault}
    {nesting : Counter}
    (h : action ⟨cache, { maxDepth := config.maxGenericDepth }⟩ = .error fault ⟨later, nesting⟩) :
    withEngine config action cache = .error fault later := by
  have hcounting : counting config.maxGenericDepth action cache = .error fault later := by
    rw [counting, h]
  exact bind_eq_of_error hcounting

/-- A new engine gives an answer between the ideal ones. -/
theorem withEngine_leads {cache : Cache} (ht : Tracks source fit below) (hfit : fit cache)
    (config : Config) (relation : Relation) (left right : String) :
    Leads source fit id (withEngine config (Engine.answer config source relation left right)) cache
      fun answer later => Between Answer.MayBecome
        (fun cache => Ideal.answer config (below cache) config.maxGenericDepth relation left right)
        cache answer later := by
  have hroom : Engine.HasRoom config.maxGenericDepth
      ⟨cache, { maxDepth := config.maxGenericDepth }⟩ := (Nat.zero_add _).symm
  rcases (Engine.relate_answers ht config _ hfit hroom relation left right).cases with
    ⟨answer, ⟨later, nesting⟩, hanswer, hlater, hextend, ⟨-, hdepth⟩, hbetween⟩ |
      ⟨fault, ⟨later, nesting⟩, hanswer, hlater, hextend, hcrash⟩
  · exact .of_ok (withEngine_eq_of_ok hanswer hdepth) hlater hextend hbetween
  · exact .of_error (withEngine_eq_of_error hanswer) hlater hextend hcrash

end Cache

end NominalSubtyping
