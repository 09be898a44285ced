import NominalSubtyping.Proofs.Query.Bounds

/-!
# Using an engine more than once

The only thing that an engine has besides its cache is the counter of nested arguments. Whatever
comes of a question, the counter stands afterwards at the depth at which it stood before, so that no
question takes room away from the next one. What a question may leave behind in the counter is the
note that a level was refused. Nothing in an engine reads this note: two engines that *match*, which
is to say that they differ in it at most, answer every question alike. So it makes no difference
whether questions are put to one engine or to a new one each.

## Main definitions

* `Question`, `Question.put` : a question about two written types, and putting it to an engine.
* `Engine.Matches`, `Engine.Tandem` : engines that match, and actions that do not tell them apart.
* `Engine.Repeatable` : an action gives the counter back and does not tell matching engines apart.

## Main results

* `Engine.relate_repeatable` : answering a question is repeatable.
* `Engine.mapM_put_eq` : questions put to one engine are answered as by new engines.
* `Cache.engine_reusable` : an engine can be used again.
-/

namespace NominalSubtyping

variable {α β : Type} {source : Source} {fit : Cache → Prop}
  {below : Cache → (sub sup : String) → Prop}

/-- A question about two written types. -/
structure Question where
  relation : Relation
  left : String
  right : String
  deriving DecidableEq, Repr

/-- Puts a question to an engine. -/
def Question.put (config : Config) (source : Source) (question : Question) : EngineM Answer :=
  Engine.answer config source question.relation question.left question.right

namespace Engine

open Cache (Tracks)

/-- Two engines have the same cache, and their counters stand at the same depth under the same
bound. -/
structure Matches (engine other : Engine) : Prop where
  cache_eq : other.cache = engine.cache
  restored : Restored engine other

/-- From whatever matches `engine`, the action gives `value` and leads to what matches `later`. -/
def Tandem (action : EngineM α) (engine : Engine) (value : α) (later : Engine) : Prop :=
  ∀ other, Matches engine other → ∃ last, action other = .ok value last ∧ Matches later last

/-- With a counter that leaves no more than `room` levels, the action gives a value, unless the
source crashes; it gives the counter back at the depth at which it was taken, and does not tell
matching engines apart. -/
def Repeatable (source : Source) (fit : Cache → Prop) (room : Nat) (action : EngineM α) : Prop :=
  ∀ engine : Engine, fit engine.cache → engine.nesting.room ≤ room →
    Leads source fit Engine.cache action engine fun value later =>
      Restored engine later ∧ Tandem action engine value later

/-! ### Engines that match -/

section Tandem

variable {engine middle later : Engine}

theorem Restored.room_eq (h : Restored engine later) :
    later.nesting.room = engine.nesting.room := by
  rw [Counter.room, Counter.room, h.maxDepth_eq, h.depth_eq]

theorem Tandem.bind {action : EngineM α} {next : α → EngineM β} {value : α} {result : β}
    (h : Tandem action engine value middle) (h' : Tandem (next value) middle result later) :
    Tandem (action >>= next) engine result later := by
  intro other hother
  obtain ⟨between, haction, hbetween⟩ := h other hother
  obtain ⟨last, hnext, hlast⟩ := h' between hbetween
  exact ⟨last, (bind_eq_of_ok haction).trans hnext, hlast⟩

/-- What is done to the cache does not depend on the counter. -/
theorem onCache_tandem {action : CacheM α} {value : α} {cache : Cache}
    (h : action engine.cache = .ok value cache) :
    Tandem (onCache action) engine value ⟨cache, engine.nesting⟩ := by
  intro other hother
  rw [← hother.cache_eq] at h
  exact ⟨⟨cache, other.nesting⟩, onCache_eq_of_ok h, rfl, hother.restored.maxDepth_eq,
    hother.restored.depth_eq⟩

/-- Counters that stand at the same depth go down alike, or refuse alike. -/
theorem enter_tandem (hfit : fit engine.cache) :
    Leads source fit Engine.cache enter engine fun entered later =>
      Tandem enter engine entered later ∧ later.nesting.maxDepth = engine.nesting.maxDepth ∧
        later.nesting.depth = engine.nesting.depth + entered.toNat ∧
        later.nesting.room + entered.toNat = engine.nesting.room := by
  have henter := enter_eq engine
  by_cases hfull : engine.nesting.maxDepth ≤ engine.nesting.depth
  · rw [if_pos hfull] at henter
    refine .of_ok henter hfit (.refl _) ⟨fun other hother => ?_, rfl, rfl, rfl⟩
    obtain ⟨hcache, hmax, hdepth⟩ := hother
    rw [enter_eq, hmax, hdepth, hcache, if_pos hfull]
    exact ⟨_, rfl, rfl, hmax, hdepth⟩
  · rw [if_neg hfull] at henter
    refine .of_ok henter hfit (.refl _) ⟨fun other hother => ?_, rfl, rfl, ?_⟩
    · obtain ⟨hcache, hmax, hdepth⟩ := hother
      rw [enter_eq, hmax, hdepth, hcache, if_neg hfull]
      exact ⟨_, rfl, rfl, hmax, rfl⟩
    · simp only [Counter.room, Bool.toNat_true]
      omega

/-- Counters below the first level go up alike. -/
theorem leave_tandem {depth : Nat} (hdepth : engine.nesting.depth = depth + 1) :
    Tandem leave engine ⟨⟩ ⟨engine.cache, { engine.nesting with depth }⟩ := by
  intro other hother
  obtain ⟨hcache, hmax, hsame⟩ := hother
  exact ⟨_, leave_eq_of_depth (hsame.trans hdepth), hcache, hmax, rfl⟩

end Tandem

namespace Repeatable

variable {room : Nat} {action : EngineM α} {next : α → EngineM β}

theorem pure (value : α) : Repeatable source fit room (pure value) :=
  fun _ hfit _ => .pure hfit ⟨.of_eq rfl, fun other hother => ⟨other, rfl, hother⟩⟩

theorem bind (h : Repeatable source fit room action)
    (hnext : ∀ value, Repeatable source fit room (next value)) :
    Repeatable source fit room (action >>= next) := by
  intro engine hfit hroom
  refine (h engine hfit hroom).bind fun {value middle} hmiddle _ hvalue => ?_
  obtain ⟨hrestored, htandem⟩ := hvalue
  refine (hnext value middle hmiddle (hrestored.room_eq ▸ hroom)).mono fun _ _ hresult => ?_
  exact ⟨hrestored.trans hresult.1, htandem.bind hresult.2⟩

theorem onCache {action : CacheM α} {post : Cache → α → Cache → Prop}
    (h : ∀ {cache}, fit cache → Leads source fit id action cache (post cache)) :
    Repeatable source fit room (onCache action) := by
  intro engine hfit _
  rcases (h hfit).cases with ⟨value, later, haction, hlater, hextend, -⟩ |
    ⟨fault, later, haction, hlater, hextend, hcrash⟩
  · exact .of_ok (onCache_eq_of_ok haction) hlater hextend ⟨.of_eq rfl, onCache_tandem haction⟩
  · exact .of_error (onCache_eq_of_error haction) hlater hextend hcrash

/-- An action may depend on what matching engines agree on. -/
theorem read {next : Engine → EngineM α}
    (hnext : ∀ {engine other}, Matches engine other → next other = next engine)
    (h : ∀ engine, Repeatable source fit engine.nesting.room (next engine)) :
    Repeatable source fit room (get >>= next) := by
  intro engine hfit _
  -- Reading changes nothing, so the action begins where the rest of it does.
  have hrest : Leads source fit Engine.cache (get >>= next) engine fun value later =>
      Restored engine later ∧ Tandem (next engine) engine value later :=
    h engine engine hfit (Nat.le_refl _)
  refine hrest.mono fun _ _ hvalue => ⟨hvalue.1, fun other hother => ?_⟩
  rw [get_bind_eq, hnext hother]
  exact hvalue.2 other hother

/-- A no is recorded and given as the answer. -/
theorem record_no (ht : Tracks source fit below) {event : Event} (hevent : event.channel ≠ .graph) :
    Repeatable source fit room
      (Engine.onCache (Cache.record event) >>= fun _ => Pure.pure (.ok false : Answer)) :=
  (onCache fun hfit => ht.record_leads hfit hevent).bind fun _ => pure _

end Repeatable

/-! ### One question -/

section Question

variable {room : Nat}

/-- Pairs of arguments are compared up to the first whose answer is not yes. -/
theorem comparePairs_repeatable {compare : String → String → EngineM Answer}
    (hcompare : ∀ left right, Repeatable source fit room (compare left right))
    (pairs : List (String × String)) : Repeatable source fit room (comparePairs compare pairs) := by
  induction pairs with
  | nil => exact .pure _
  | cons pair pairs ih =>
    obtain ⟨left, right⟩ := pair
    rw [comparePairs]
    refine (hcompare left right).bind fun answer => ?_
    rcases answer with error | ⟨_ | _⟩
    · exact .pure _
    · exact .pure _
    · exact ih

/-- A level that is refused is recorded with the bound, and the answer is no. -/
theorem refusal_repeatable (ht : Tracks source fit below) :
    Repeatable source fit room (get >>= fun engine =>
      onCache (Cache.record (.nestedTooDeep engine.nesting.maxDepth)) >>= fun _ =>
        pure (.ok false : Answer)) := by
  refine .read (fun hother => ?_) fun engine => .record_no ht fun h => (by cases h)
  rw [hother.restored.maxDepth_eq]

/-- A level that was entered is left again, whatever the answer is about the arguments on it. -/
theorem compareArguments_repeatable (ht : Tracks source fit below)
    {compare : String → String → EngineM Answer}
    (hcompare : ∀ deeper, room = deeper + 1 → ∀ left right,
      Repeatable source fit deeper (compare left right)) (left right : List String) :
    Repeatable source fit room (compareArguments compare left right) := by
  rw [compareArguments]
  split
  · exact .record_no ht fun h => (by cases h)
  · intro engine hfit hroom
    refine (enter_tandem hfit).bind fun {entered inner} hinner _ hentered => ?_
    obtain ⟨henter, hmax, hdepth, hleft⟩ := hentered
    cases entered with
    | false =>
      have hroom' : inner.nesting.room ≤ room := Nat.le_trans (Nat.le_of_eq hleft) hroom
      refine (refusal_repeatable ht inner hinner hroom').mono fun _ _ hanswer => ?_
      exact ⟨Restored.trans ⟨hmax, hdepth⟩ hanswer.1, henter.bind hanswer.2⟩
    | true =>
      -- The level is granted, so there was room for it.
      simp only [Bool.toNat_true] at hleft hdepth
      obtain ⟨deeper, hdeeper⟩ : ∃ deeper, room = deeper + 1 :=
        Nat.exists_eq_add_one_of_ne_zero (by omega)
      refine (comparePairs_repeatable (hcompare deeper hdeeper) (left.zip right) inner hinner
        (by omega)).bind fun {answer later} hlater _ hanswer => ?_
      obtain ⟨hrestored, hpairs⟩ := hanswer
      have hlevel := hrestored.depth_eq.trans hdepth
      refine (leave_leads hlater hlevel).bind ?_
      rintro _ _ hlast - rfl
      refine .pure hlast ⟨⟨hrestored.maxDepth_eq.trans hmax, rfl⟩, henter.bind (hpairs.bind ?_)⟩
      exact (leave_tandem hlevel).bind fun other hother => ⟨other, rfl, hother⟩

/-- One level of a question, given that arguments are compared repeatably. -/
theorem relateWith_repeatable (ht : Tracks source fit below) (config : Config)
    {compare : Relation → String → String → EngineM Answer}
    (hcompare : ∀ deeper, room = deeper + 1 → ∀ relation left right,
      Repeatable source fit deeper (compare relation left right))
    (relation : Relation) (left right : String) :
    Repeatable source fit room (relateWith config source compare relation left right) := by
  rw [relateWith]
  cases config.verdict? relation left right with
  | some verdict => exact .pure _
  | none =>
    rcases readBoth TypeUse.parse left right with error | ⟨leftUse, rightUse⟩
    · exact .pure _
    dsimp only
    refine (Repeatable.onCache fun hfit =>
      Bases.related_leads ht hfit config relation left right _ _).bind fun related => ?_
    cases related with
    | false => exact .pure _
    | true =>
      refine (Repeatable.onCache fun hfit =>
        rawVerdict?_leads ht hfit relation leftUse rightUse).bind fun verdict => ?_
      cases verdict with
      | some verdict => exact .pure _
      | none =>
        dsimp only
        rcases readBoth TypeUse.arguments leftUse rightUse with error | ⟨lefts, rights⟩
        · exact .pure _
        · exact compareArguments_repeatable ht
            (fun deeper hdeeper => hcompare deeper hdeeper relation.onArguments) lefts rights

/-- Answering a question is repeatable, if its room is no less than what the counter leaves. -/
theorem relate_repeatable (ht : Tracks source fit below) (config : Config) (room : Nat) :
    ∀ relation left right,
      Repeatable source fit room (relate config source room relation left right) := by
  induction room with
  | zero => exact relateWith_repeatable ht config fun _ hdeeper => by cases hdeeper
  | succ room ih =>
    refine relateWith_repeatable ht config fun deeper hdeeper => ?_
    rw [← Nat.succ.inj hdeeper]
    exact ih

/-- The room of a question is what the counter leaves. -/
theorem put_repeatable (ht : Tracks source fit below) (config : Config) (question : Question) :
    Repeatable source fit room (question.put config source) := by
  refine Repeatable.read (fun hother => ?_) fun engine =>
    relate_repeatable ht config engine.nesting.room question.relation question.left question.right
  rw [hother.restored.room_eq]

end Question

/-! ### Questions one after the other -/

/-- Questions that are put to an engine like a new one are answered as by new engines. -/
theorem mapM_put_eq (ht : Tracks source fit below)
    (hsource : ∀ asked name message, source asked name ≠ .crashed message) (config : Config)
    (questions : List Question) :
    ∀ engine : Engine, fit engine.cache →
      Matches ⟨engine.cache, { maxDepth := config.maxGenericDepth }⟩ engine →
        ∃ answers later, questions.mapM (·.put config source) engine = .ok answers later ∧
          questions.mapM (fun question => Cache.withEngine config (question.put config source))
            engine.cache = .ok answers later.cache ∧ later.nesting.depth = 0 := by
  induction questions with
  | nil => exact fun engine _ hmatches => ⟨[], engine, rfl, rfl, hmatches.restored.depth_eq⟩
  | cons question questions ih =>
    intro engine hfit hmatches
    simp only [List.mapM_cons]
    -- The first question is answered by a new engine, and by this one as by a new engine.
    obtain ⟨answer, ⟨cache, nesting⟩, hanew, hcache, -, hrestored, htandem⟩ :=
      (put_repeatable ht config question ⟨engine.cache, { maxDepth := config.maxGenericDepth }⟩
        hfit (Nat.le_refl _)).exists_ok hsource
    obtain ⟨later, hput, hlater⟩ := htandem engine hmatches
    have hfresh : Cache.withEngine config (question.put config source) engine.cache =
        .ok answer cache := Cache.withEngine_eq_of_ok hanew hrestored.depth_eq
    have hagain := hrestored.trans hlater.restored
    obtain ⟨answers, last, hrest, hrest', hlast⟩ :=
      ih later (by rw [hlater.cache_eq]; exact hcache) ⟨rfl, hagain.maxDepth_eq, hagain.depth_eq⟩
    rw [hlater.cache_eq] at hrest'
    refine ⟨answer :: answers, last, ?_, ?_, hlast⟩
    · exact (bind_eq_of_ok hput).trans (bind_eq_of_ok hrest)
    · exact (bind_eq_of_ok hfresh).trans (bind_eq_of_ok hrest')

end Engine

namespace Cache

/-- **An engine can be used again.** With a source that never crashes, every question that is put to
an engine is answered, at whatever depth its counter stands, and leaves the counter at that depth.
The same is true of the questions about arguments on the way, which have at least the room that the
counter leaves. So a list of questions that are put to one engine has the answers, and leaves the
cache, that it has with a new engine for each of them. -/
theorem engine_reusable (hsource : ∀ asked name message, source asked name ≠ .crashed message)
    (config : Config) :
    (∀ engine : Engine, engine.cache.graph.WellFormed → ∀ question : Question, ∃ answer later,
      question.put config source engine = .ok answer later ∧
        later.nesting.depth = engine.nesting.depth ∧ later.cache.graph.WellFormed) ∧
    (∀ engine : Engine, engine.cache.graph.WellFormed → ∀ room, engine.nesting.room ≤ room →
      ∀ relation left right, ∃ answer later,
        Engine.relate config source room relation left right engine = .ok answer later ∧
          later.nesting.depth = engine.nesting.depth ∧ later.cache.graph.WellFormed) ∧
    ∀ cache : Cache, cache.graph.WellFormed → ∀ questions : List Question, ∃ answers later,
      withEngine config (questions.mapM (·.put config source)) cache = .ok answers later ∧
        questions.mapM (fun question => withEngine config (question.put config source)) cache =
          .ok answers later := by
  have ht := tracks_graph source
  refine ⟨fun engine hwf question => ?_, fun engine hwf room hroom relation left right => ?_,
    fun cache hwf questions => ?_⟩
  · obtain ⟨answer, later, hanswer, hlater, -, hrestored, -⟩ :=
      (Engine.put_repeatable ht config question engine hwf (Nat.le_refl _)).exists_ok hsource
    exact ⟨answer, later, hanswer, hrestored.depth_eq, hlater⟩
  · obtain ⟨answer, later, hanswer, hlater, -, hrestored, -⟩ :=
      (Engine.relate_repeatable ht config room relation left right engine hwf hroom).exists_ok
        hsource
    exact ⟨answer, later, hanswer, hrestored.depth_eq, hlater⟩
  · obtain ⟨answers, ⟨later, nesting⟩, hone, heach, hdepth⟩ := Engine.mapM_put_eq ht hsource config
      questions ⟨cache, { maxDepth := config.maxGenericDepth }⟩ hwf ⟨rfl, .of_eq rfl⟩
    exact ⟨answers, later, withEngine_eq_of_ok hone hdepth, heach⟩

/-- An engine with one level of arguments still answers yes after arguments that were nested too
deeply, an argument whose brackets do not balance, and argument lists of different lengths. -/
theorem engine_reusable_after_refusals :
    let source : Source := fun _ _ => .unknown
    let config : Config := { maxGenericDepth := 1 }
    let questions : List Question := [⟨.subtype, "L<L<A>>", "L<L<A>>"⟩,
      ⟨.common false false, "L<A,M<B>C<D>>", "L<A,M<B>C<D>>"⟩,
      ⟨.common false true, "L<A>", "L<A,B>"⟩, ⟨.subtype, "L<A>", "L<A>"⟩]
    let answers : List Answer := [.ok false, .error ⟨.unmatched, "B>C<D", 1⟩, .ok false, .ok true]
    ∃ later, withEngine config (questions.mapM (·.put config source)) (new config.loadLimits) =
        .ok answers later ∧
      questions.mapM (fun question => withEngine config (question.put config source))
        (new config.loadLimits) = .ok answers later := by
  intro source config questions answers
  have hsource : ∀ asked name message, source asked name ≠ .crashed message :=
    fun _ _ _ h => by cases h
  obtain ⟨-, -, hreuse⟩ := engine_reusable hsource config
  obtain ⟨answers', later, hone, heach⟩ := hreuse _ (wellFormed_new config.loadLimits) questions
  have hanswers : withEngine config (questions.mapM (·.put config source)) (new config.loadLimits) =
      .ok answers _ := eq_ok_of_run' (by decide +kernel)
  obtain ⟨rfl, -⟩ := EStateM.Result.ok.inj (hone.symm.trans hanswers)
  exact ⟨later, hone, heach⟩

end Cache

end NominalSubtyping
