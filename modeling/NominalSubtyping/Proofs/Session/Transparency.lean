import NominalSubtyping.Proofs.Query.Answers
import NominalSubtyping.Proofs.Session.Run

/-!
# The history of a session does not show

Over a catalog, and with limits that leave room for all that it declares, every question gets its
ideal answer, which does not depend on the state of the session. So no history can be told from
another by its answers: not by what was asked or loaded before, nor by questions that were refused,
nor by whether the root was loaded when the session began.

## Main definitions

* `Session.Over` : a session over a catalog.

## Main results

* `Session.Over.query`, `Session.Over.run` : questions get ideal answers, before and after any
  steps.
* `Session.answerAfter_independent` : the answer does not depend on the history.
-/

namespace NominalSubtyping.Session

variable {config : Config} {catalog : Catalog} {session : Session}

/-- A session over a catalog, whose cache shows the hierarchy of the catalog. -/
structure Over (config : Config) (catalog : Catalog) (session : Session) : Prop where
  config_eq : session.config = config
  source_eq : session.source = catalog.toSource
  faithful : Cache.Faithful catalog session.cache

/-- A session over a catalog begins. -/
theorem start_over (hbuilt : catalog.Built) (hdepth : catalog.known.size < config.maxLoadDepth)
    (hiterations : catalog.edgeCount < config.maxLoadIterations) :
    ∃ session, start config catalog.toSource = .ok session ∧ Over config catalog session := by
  have hnew : Cache.Faithful catalog (.new config.loadLimits) :=
    Cache.faithful_new hdepth hiterations
  rw [start]
  by_cases hpreload : config.preloadRoot = true
  · obtain ⟨status, later, hload, hlater, -, -⟩ := hnew.load hbuilt config.rootType
    have hroot : preloadRoot config catalog.toSource (.new config.loadLimits) =
        .ok ⟨⟩ (later.withEvent (.preloaded config.rootType status)) :=
      bind_eq_of_ok hload
    dsimp only
    rw [if_pos hpreload, hroot]
    exact ⟨_, rfl, rfl, rfl, hlater.withEvent _⟩
  · dsimp only
    rw [if_neg hpreload]
    exact ⟨_, rfl, rfl, rfl, hnew⟩

namespace Over

/-- A question gets its ideal answer. -/
theorem query (h : Over config catalog session) (hbuilt : catalog.Built) (relation : Relation)
    (left right : String) :
    ∃ later, Session.query relation left right session =
        .ok (Ideal.answer config catalog.Below config.maxGenericDepth relation left right) later ∧
      Over config catalog later := by
  obtain rfl := h.config_eq
  have hasked := h.faithful.withEvent (.asked (session.queries + 1) relation left right)
  obtain ⟨later, hanswer, hlater⟩ :=
    Cache.withEngine_yields hasked hbuilt session.config relation left right
  rw [← h.source_eq] at hanswer
  exact ⟨_, query_eq_of_ok hanswer, rfl, h.source_eq, hlater.withEvent _⟩

/-- A type is loaded ahead of a question. -/
theorem preload (h : Over config catalog session) (hbuilt : catalog.Built) (name : String) :
    ∃ status later, Session.preload name session = .ok status later ∧
      Over config catalog later := by
  obtain ⟨status, later, hload, hlater, -, -⟩ := h.faithful.load hbuilt name
  refine ⟨status, { session with cache := later }, ?_, h.config_eq, h.source_eq, hlater⟩
  refine (get_bind_eq _ session).trans (onCache_eq_of_ok ?_)
  rw [h.source_eq]
  exact hload

theorem step (h : Over config catalog session) (hbuilt : catalog.Built) (step : Step) :
    Over config catalog (finalState step.perform session) := by
  cases step with
  | query relation left right =>
    obtain ⟨later, hquery, hlater⟩ := h.query hbuilt relation left right
    rwa [Step.perform, finalState_of_ok (discard_eq_of_ok hquery)]
  | preload name =>
    obtain ⟨status, later, hpreload, hlater⟩ := h.preload hbuilt name
    rwa [Step.perform, finalState_of_ok (discard_eq_of_ok hpreload)]

theorem run (h : Over config catalog session) (hbuilt : catalog.Built) (steps : List Step) :
    Over config catalog (session.run steps) :=
  run_keeps (fun h step => h.step hbuilt step) steps h

end Over

/-- After any steps of a new session, a question gets its ideal answer. -/
theorem answerAfter_eq (config : Config) (hbuilt : catalog.Built)
    (hdepth : catalog.known.size < config.maxLoadDepth)
    (hiterations : catalog.edgeCount < config.maxLoadIterations) (steps : List Step)
    (relation : Relation) (left right : String) :
    answerAfter config catalog.toSource steps relation left right =
      .ok (Ideal.answer config catalog.Below config.maxGenericDepth relation left right) := by
  obtain ⟨session, hstart, hover⟩ := start_over hbuilt hdepth hiterations
  obtain ⟨later, hquery, -⟩ := (hover.run hbuilt steps).query hbuilt relation left right
  exact answerAfter_eq_of_ok hstart hquery

/-- A question has one answer, whatever was done in the session before, and whether or not the root
was loaded when the session began. -/
theorem answerAfter_independent (hbuilt : catalog.Built)
    (hdepth : catalog.known.size < config.maxLoadDepth)
    (hiterations : catalog.edgeCount < config.maxLoadIterations) (relation : Relation)
    (left right : String) :
    ∃ answer, ∀ (preload : Bool) (steps : List Step),
      answerAfter { config with preloadRoot := preload } catalog.toSource steps relation
        left right = .ok answer := by
  refine ⟨Ideal.answer config catalog.Below config.maxGenericDepth relation left right, ?_⟩
  intro preload steps
  rw [answerAfter_eq { config with preloadRoot := preload } hbuilt hdepth hiterations,
    Ideal.answer_preloadRoot]

/-- Two types that are each below the other, and a type below both: the way from `C` up to `A` leads
into the cycle, and so do the arguments. -/
theorem answerAfter_independent_cycle :
    let catalog := ((Catalog.declare {} "A" "B").declare "B" "A").declare "C" "B"
    let config : Config := { maxLoadDepth := 4, maxLoadIterations := 4 }
    catalog.Built ∧ catalog.known.size < config.maxLoadDepth ∧
      catalog.edgeCount < config.maxLoadIterations ∧
      ∀ (preload : Bool) (steps : List Step),
        answerAfter { config with preloadRoot := preload } catalog.toSource steps .subtype
          "C<A, B>" "A<B, A>" = .ok (.ok true) := by
  intro catalog config
  have hbuilt : catalog.Built :=
    ((Catalog.Built.empty.declare "A" "B").declare "B" "A").declare "C" "B"
  have hdepth : catalog.known.size < config.maxLoadDepth := by decide +kernel
  have hiterations : catalog.edgeCount < config.maxLoadIterations := by decide +kernel
  obtain ⟨answer, hanswer⟩ :=
    answerAfter_independent hbuilt hdepth hiterations .subtype "C<A, B>" "A<B, A>"
  have hyes : answerAfter { config with preloadRoot := false } catalog.toSource [] .subtype
      "C<A, B>" "A<B, A>" = .ok (.ok true) := by
    decide +kernel
  obtain rfl : answer = .ok true := Except.ok.inj ((hanswer false []).symm.trans hyes)
  exact ⟨hbuilt, hdepth, hiterations, hanswer⟩

end NominalSubtyping.Session
