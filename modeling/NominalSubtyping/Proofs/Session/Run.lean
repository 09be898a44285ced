import NominalSubtyping.Proofs.Query.Bounds
import NominalSubtyping.Session

/-!
# Runs of a session

A session goes from step to step: a question is put, or a type is loaded ahead of one. A step that
ends with a bracket error, or even with a fault, is a step like any other, and the session goes on
from the state that it leaves behind.

## Main definitions

* `Session.Step`, `Session.Step.perform` : the steps.
* `Session.run` : the session after some steps.
* `Session.answerAfter` : the answer to a question that is put after some steps.

## Main results

* `Session.run_follows`, `Session.run_path` : a run moves the cache along steps, and so does a
  session from its beginning on.
* `Session.run_invariant` : what a new cache has and every step keeps, holds after every run.
-/

open Relation (ReflTransGen)

namespace NominalSubtyping.Session

/-- Something that is done with a session. -/
inductive Step where
  /-- A question is put. -/
  | query (relation : Relation) (left right : String)
  /-- Everything below a type is loaded. -/
  | preload (name : String)
  deriving DecidableEq, Repr

/-- Does what the step says. -/
def Step.perform : Step → SessionM PUnit
  | query relation left right => discard (Session.query relation left right)
  | preload name => discard (Session.preload name)

/-- The session after some steps. -/
def run (session : Session) (steps : List Step) : Session :=
  steps.foldl (fun session step => finalState step.perform session) session

/-- The answer to a question that is put after some steps of a new session. -/
def answerAfter (config : Config) (source : Source) (steps : List Step) (relation : Relation)
    (left right : String) : Except Fault Answer := do
  let session ← start config source
  match query relation left right (session.run steps) with
  | .ok answer _ => return answer
  | .error fault _ => throw fault

variable {session : Session} {relation : Relation} {left right : String}

theorem onCache_eq_of_ok {α : Type} {action : CacheM α} {value : α} {cache : Cache}
    (h : action session.cache = .ok value cache) :
    onCache action session = .ok value { session with cache } := by
  obtain ⟨_, _, _, _⟩ := session
  simp only [onCache, focus] at h ⊢
  rw [h]

theorem onCache_eq_of_error {α : Type} {action : CacheM α} {fault : Fault} {cache : Cache}
    (h : action session.cache = .error fault cache) :
    onCache action session = .error fault { session with cache } := by
  obtain ⟨_, _, _, _⟩ := session
  simp only [onCache, focus] at h ⊢
  rw [h]

theorem query_eq_of_ok {answer : Answer} {later : Cache}
    (h : Cache.withEngine session.config
        (Engine.answer session.config session.source relation left right)
        (session.cache.withEvent (.asked (session.queries + 1) relation left right)) =
      .ok answer later) :
    query relation left right session = .ok answer
      { session with
        cache := later.withEvent
          (.answered (session.queries + 1) relation answer.toOption later.graph.size)
        queries := session.queries + 1 } := by
  refine (modify_bind_eq _ _ session).trans ((get_bind_eq _ _).trans ?_)
  refine (bind_eq_of_ok (onCache_eq_of_ok (Cache.record_eq _ _))).trans ?_
  refine (bind_eq_of_ok (onCache_eq_of_ok h)).trans ?_
  rfl

theorem query_eq_of_error {fault : Fault} {later : Cache}
    (h : Cache.withEngine session.config
        (Engine.answer session.config session.source relation left right)
        (session.cache.withEvent (.asked (session.queries + 1) relation left right)) =
      .error fault later) :
    query relation left right session =
      .error fault { session with cache := later, queries := session.queries + 1 } := by
  refine (modify_bind_eq _ _ session).trans ((get_bind_eq _ _).trans ?_)
  refine (bind_eq_of_ok (onCache_eq_of_ok (Cache.record_eq _ _))).trans ?_
  exact bind_eq_of_error (onCache_eq_of_error h)

theorem answerAfter_eq_of_ok {config : Config} {source : Source} {steps : List Step}
    {answer : Answer} {later : Session} (hstart : start config source = .ok session)
    (hquery : query relation left right (session.run steps) = .ok answer later) :
    answerAfter config source steps relation left right = .ok answer := by
  simp only [answerAfter, hstart, bind, Except.bind, hquery]
  rfl

/-- An answer was given in a session that began. -/
theorem exists_of_answerAfter {config : Config} {source : Source} {steps : List Step}
    {answer : Answer} (h : answerAfter config source steps relation left right = .ok answer) :
    ∃ session later, start config source = .ok session ∧
      query relation left right (session.run steps) = .ok answer later := by
  rw [answerAfter] at h
  cases hstart : start config source with
  | error fault =>
    rw [hstart] at h
    cases h
  | ok session =>
    rw [hstart] at h
    cases hquery : query relation left right (session.run steps) with
    | ok answer' later =>
      simp only [bind, Except.bind, hquery] at h
      exact ⟨session, later, rfl, Except.ok.inj h ▸ hquery⟩
    | error fault later =>
      simp only [bind, Except.bind, hquery] at h
      cases h

theorem run_append (session : Session) (steps more : List Step) :
    session.run (steps ++ more) = (session.run steps).run more :=
  List.foldl_append

/-- A question as the last step of a run. -/
theorem run_query {steps : List Step} {answer : Answer} {later : Session}
    (h : query relation left right (session.run steps) = .ok answer later) :
    session.run (steps ++ [.query relation left right]) = later := by
  rw [run_append]
  exact finalState_of_ok (discard_eq_of_ok h)

/-- What every step keeps, every run keeps. -/
theorem run_keeps {P : Session → Prop}
    (hstep : ∀ {session}, P session → ∀ step : Step, P (finalState step.perform session))
    (steps : List Step) : ∀ {session : Session}, P session → P (session.run steps) := by
  induction steps with
  | nil => exact fun h => h
  | cons step steps ih => exact fun h => ih (hstep h step)

/-! ### Runs as paths -/

/-- The cache of the later session is reached by steps, and nothing else that matters has
changed. -/
structure Follows (session later : Session) : Prop where
  config_eq : later.config = session.config
  source_eq : later.source = session.source
  path : ReflTransGen (Cache.Step session.source) session.cache later.cache

theorem Follows.refl (session : Session) : session.Follows session :=
  ⟨rfl, rfl, .refl⟩

theorem Follows.trans {middle later : Session} (h : session.Follows middle)
    (h' : middle.Follows later) : session.Follows later where
  config_eq := h'.config_eq.trans h.config_eq
  source_eq := h'.source_eq.trans h.source_eq
  path := h.path.trans (h.source_eq ▸ h'.path)

theorem Follows.wellFormed {later : Session} (h : session.Follows later)
    (hwf : session.cache.graph.WellFormed) : later.cache.graph.WellFormed :=
  Cache.wellFormed_of_path h.path hwf

theorem Follows.grows {later : Session} (h : session.Follows later)
    (hwf : session.cache.graph.WellFormed) : session.cache.Grows later.cache :=
  Cache.grows_of_path h.path hwf

/-- A question moves the cache along steps, however it ends. -/
theorem query_follows (hwf : session.cache.graph.WellFormed) (relation : Relation)
    (left right : String) : session.Follows (finalState (query relation left right) session) := by
  have hasked : Cache.Step session.source session.cache
      (session.cache.withEvent (.asked (session.queries + 1) relation left right)) :=
    .event fun h => (by cases h)
  have hwf' : (session.cache.withEvent
      (.asked (session.queries + 1) relation left right)).graph.WellFormed := hwf
  have hpath := (Cache.withEngine_leads (Cache.tracks_path session.source hwf') .refl session.config
    relation left right).fit_finalState
  cases hanswer : Cache.withEngine session.config
      (Engine.answer session.config session.source relation left right)
      (session.cache.withEvent (.asked (session.queries + 1) relation left right)) with
  | ok answer later =>
    rw [finalState_of_ok hanswer] at hpath
    rw [finalState_of_ok (query_eq_of_ok hanswer)]
    exact ⟨rfl, rfl, (ReflTransGen.head hasked hpath).tail (.event fun h => (by cases h))⟩
  | error fault later =>
    rw [finalState_of_error hanswer] at hpath
    rw [finalState_of_error (query_eq_of_error hanswer)]
    exact ⟨rfl, rfl, ReflTransGen.head hasked hpath⟩

/-- A load ahead of a question is a load of the cache. -/
theorem finalState_preload (session : Session) (name : String) :
    finalState (preload name) session =
      { session with cache := finalState (Cache.load session.source name) session.cache } := by
  rw [preload, finalState_bind]
  exact finalState_focus _ (Cache.load session.source name) session

theorem preload_follows (hwf : session.cache.graph.WellFormed) (name : String) :
    session.Follows (finalState (preload name) session) := by
  have hpath := ((Cache.tracks_path session.source hwf).load_leads .refl name).fit_finalState
  rw [finalState_preload]
  exact ⟨rfl, rfl, hpath⟩

theorem Step.perform_follows (hwf : session.cache.graph.WellFormed) (step : Step) :
    session.Follows (finalState step.perform session) := by
  cases step with
  | query relation left right =>
    rw [perform, finalState_discard]
    exact query_follows hwf relation left right
  | preload name =>
    rw [perform, finalState_discard]
    exact preload_follows hwf name

/-- A run moves the cache along steps. -/
theorem run_follows (hwf : session.cache.graph.WellFormed) (steps : List Step) :
    session.Follows (session.run steps) := by
  refine run_keeps (P := session.Follows) (fun {middle} h step => ?_) steps (.refl session)
  exact h.trans (step.perform_follows (h.wellFormed hwf))

/-- The load of the root ends with a value, unless the source crashes. -/
theorem preloadRoot_leads {source : Source} {fit : Cache → Prop}
    {below : Cache → (sub sup : String) → Prop} (ht : Cache.Tracks source fit below) {cache : Cache}
    (hfit : fit cache) (config : Config) :
    Leads source fit id (preloadRoot config source) cache fun _ _ => True := by
  rw [preloadRoot]
  refine (ht.load_leads hfit config.rootType).bind fun hlater _ _ => ?_
  exact (ht.record_leads hlater fun h => (by cases h)).mono fun _ _ _ => trivial

/-- A session begins with a new cache, which the load of the root may have moved along steps. -/
theorem start_path {config : Config} {source : Source} (h : start config source = .ok session) :
    session.config = config ∧ session.source = source ∧
      ReflTransGen (Cache.Step source) (.new config.loadLimits) session.cache := by
  have hroot {cache : Cache} (hwf : cache.graph.WellFormed) :=
    (preloadRoot_leads (Cache.tracks_path source hwf) .refl config).fit_finalState
  have hpath := hroot (Cache.wellFormed_new config.loadLimits)
  rw [start] at h
  dsimp only at h
  split at h
  · split at h
    · rename_i hloaded
      obtain rfl := Except.ok.inj h
      rw [finalState_of_ok hloaded] at hpath
      exact ⟨rfl, rfl, hpath⟩
    · cases h
  · obtain rfl := Except.ok.inj h
    exact ⟨rfl, rfl, .refl⟩

theorem start_wellFormed {config : Config} {source : Source}
    (h : start config source = .ok session) : session.cache.graph.WellFormed :=
  Cache.wellFormed_of_path (start_path h).2.2 (Cache.wellFormed_new _)

/-- A run leaves the configuration and the source as they are. -/
theorem run_setting {config : Config} {source : Source} (h : start config source = .ok session)
    (steps : List Step) :
    (session.run steps).config = config ∧ (session.run steps).source = source := by
  obtain ⟨rfl, rfl, -⟩ := start_path h
  have hfollows := run_follows (start_wellFormed h) steps
  exact ⟨hfollows.config_eq, hfollows.source_eq⟩

/-- Steps lead from a new cache to the cache after every run of every session. -/
theorem run_path {config : Config} {source : Source} (h : start config source = .ok session)
    (steps : List Step) :
    ReflTransGen (Cache.Step source) (.new config.loadLimits) (session.run steps).cache := by
  obtain ⟨-, rfl, hpath⟩ := start_path h
  exact hpath.trans (run_follows (start_wellFormed h) steps).path

/-- What a new cache has and every step keeps, holds after every run of every session. -/
theorem run_invariant {config : Config} {source : Source} {P : Cache → Prop}
    (hnew : P (.new config.loadLimits))
    (hstep : ∀ {cache later}, cache.graph.WellFormed → P cache → Cache.Step source cache later →
      P later)
    (h : start config source = .ok session) (steps : List Step) :
    P (session.run steps).cache := by
  have hwhole := run_path h steps
  generalize (session.run steps).cache = later at hwhole
  induction hwhole with
  | refl => exact hnew
  | tail hpath hlast ih =>
    exact hstep (Cache.wellFormed_of_path hpath (Cache.wellFormed_new _)) ih hlast

end NominalSubtyping.Session
