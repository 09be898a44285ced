import NominalSubtyping.Query.Engine

/-!
# Sessions

A *session* puts a configuration, a source and a cache together. Questions are put to the session
one after the other; what the cache has learned for one question serves the later ones.

## Main definitions

* `Session.start` : begins a session, and loads the root if the configuration says so.
* `Session.query` : puts a question.
* `Session.preload` : loads everything below a type ahead of a question.
* `Session.inspect` : reads the graph.
-/

namespace NominalSubtyping

/-- A configuration, a source, and what has been learned from it. -/
structure Session where
  config : Config
  source : Source
  cache : Cache
  /-- The number of questions put so far. -/
  queries : Nat := 0

/-- Steps of a session. -/
abbrev SessionM := EStateM Fault Session

namespace Session

/-- Runs an action on the cache. -/
@[inline]
def onCache {α : Type} : CacheM α → SessionM α :=
  focus fun ⟨config, source, cache, queries⟩ =>
    (cache, fun cache => ⟨config, source, cache, queries⟩)

/-- Loads everything below the root, and records how that went. -/
def preloadRoot (config : Config) (source : Source) : CacheM Unit := do
  let status ← Cache.load source config.rootType
  Cache.record (.preloaded config.rootType status)

/-- Begins a session. -/
def start (config : Config) (source : Source) : Except Fault Session :=
  let session : Session := { config, source, cache := .new config.loadLimits }
  if config.preloadRoot then
    match preloadRoot config source session.cache with
    | .ok _ cache => .ok { session with cache }
    | .error fault _ => .error fault
  else
    .ok session

/-- Puts a question to the session. -/
def query (relation : Relation) (left right : String) : SessionM Answer := do
  modify fun session => { session with queries := session.queries + 1 }
  let ⟨config, source, _, id⟩ ← get
  onCache (Cache.record (.asked id relation left right))
  let answer ← onCache
    (Cache.withEngine config (Engine.answer config source relation left right))
  let nodes := (← get).cache.graph.size
  onCache (Cache.record (.answered id relation answer.toOption nodes))
  return answer

/-- Loads everything below the type `name`. -/
def preload (name : String) : SessionM LoadStatus := do
  onCache (Cache.load (← get).source name)

/-- Reads the graph; a fault of the reader leaves the session as it is. -/
def inspect {α : Type} (read : TypeGraph → Except Fault α) : SessionM α :=
  onCache (Cache.inspect read)

end Session

end NominalSubtyping
