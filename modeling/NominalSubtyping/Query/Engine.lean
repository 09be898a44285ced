import NominalSubtyping.Limits.Counter
import NominalSubtyping.Query.Bases
import NominalSubtyping.TypeUse.Basic

/-!
# Answering questions

A question about two written types is decided in three stages. The special types of the
configuration decide some questions on the texts alone. Otherwise the base types are compared, and
if they are related, the arguments are compared by position, each pair by the same question. A raw
supertype admits all arguments, a raw subtype satisfies none, and for a common subtype it is enough
that one of the two types is raw.

Arguments are compared up to a nesting depth that a counter watches; deeper ones count as unrelated.
The comparison of a list of pairs stops at the first pair whose answer is not yes. A text whose
brackets do not balance is refused when it is read, which may be never.

## Main definitions

* `Engine` : a cache with the counter of nested arguments.
* `Engine.relateWith` : one level of a question, given how arguments are compared.
* `Engine.relate` : a question with room for a number of levels.
* `Engine.answer` : a question with the room that the counter leaves.
* `Cache.withEngine` : an engine for a while.
-/

namespace NominalSubtyping

/-- The answer to a question, or the bracket error for which it was refused. -/
abbrev Answer := Except BracketError Bool

/-- A cache with the counter of nested arguments. -/
structure Engine where
  cache : Cache
  nesting : Counter

/-- Actions of an engine. -/
abbrev EngineM := EStateM Fault Engine

namespace Engine

/-- Runs an action on the cache. -/
@[inline]
def onCache {α : Type} : CacheM α → EngineM α :=
  focus fun ⟨cache, nesting⟩ => (cache, fun cache => ⟨cache, nesting⟩)

/-- Goes one level of arguments down, or refuses. -/
def enter : EngineM Bool := fun ⟨cache, nesting⟩ =>
  match nesting.enter with
  | (entered, nesting) => .ok entered ⟨cache, nesting⟩

/-- Goes one level of arguments up. -/
def leave : EngineM Unit := do
  let nesting ← MonadExcept.ofExcept (← get).nesting.leave
  modify fun engine => { engine with nesting }

/-- Compares pairs of arguments up to the first whose answer is not yes. -/
def comparePairs (compare : String → String → EngineM Answer) :
    List (String × String) → EngineM Answer
  | [] => return .ok true
  | (left, right) :: rest => do
    match ← compare left right with
    | .ok true => comparePairs compare rest
    | answer => return answer

/-- Compares two argument lists by position, one level further down. -/
def compareArguments (compare : String → String → EngineM Answer) (left right : List String) :
    EngineM Answer := do
  if left.length ≠ right.length then
    onCache (Cache.record (.arityMismatch left.length right.length))
    return .ok false
  else if ← enter then
    let answer ← comparePairs compare (left.zip right)
    leave
    return answer
  else
    onCache (Cache.record (.nestedTooDeep (← get).nesting.maxDepth))
    return .ok false

/-- What is decided about the arguments of two type uses without reading them. -/
def rawVerdict? (relation : Relation) (left right : TypeUse) : CacheM (Option Bool) :=
  match relation with
  | .subtype => do
    if !right.isGeneric then
      return some true
    else if !left.isGeneric then
      Cache.record (.rawSubtype right.argumentText)
      return some false
    else
      return none
  | .common _ _ => return if left.isGeneric && right.isGeneric then none else some true

/-- Reads two texts, the left one first. -/
def readBoth {α β : Type} (read : α → Except BracketError β) (left right : α) :
    Except BracketError (β × β) := do
  let left ← read left
  let right ← read right
  return (left, right)

/-- One level of a question, given how pairs of arguments are compared. -/
def relateWith (config : Config) (source : Source)
    (compare : Relation → String → String → EngineM Answer) (relation : Relation)
    (left right : String) : EngineM Answer :=
  match config.verdict? relation left right with
  | some verdict => return .ok verdict
  | none =>
    match readBoth TypeUse.parse left right with
    | .error error => return .error error
    | .ok (leftUse, rightUse) => do
      let related ← onCache
        (Bases.related config source relation left right leftUse.base rightUse.base)
      if !related then
        return .ok false
      else
        match ← onCache (rawVerdict? relation leftUse rightUse) with
        | some verdict => return .ok verdict
        | none =>
          match readBoth TypeUse.arguments leftUse rightUse with
          | .error error => return .error error
          | .ok (leftArguments, rightArguments) =>
            compareArguments (compare relation.onArguments) leftArguments rightArguments

/-- A question with room for `room` levels of arguments. It is a fault to compare deeper arguments;
a counter that leaves no more room than that refuses the next level first. -/
def relate (config : Config) (source : Source) :
    (room : Nat) → Relation → (left right : String) → EngineM Answer
  | 0 => relateWith config source fun _ _ _ => throw .outOfRoom
  | room + 1 => relateWith config source (relate config source room)

/-- The answer to a question, with the room that the counter leaves. -/
def answer (config : Config) (source : Source) (relation : Relation) (left right : String) :
    EngineM Answer := do
  relate config source (← get).nesting.room relation left right

end Engine

namespace Cache

/-- Runs an action with a new counter, and gives the counter back. -/
def counting {α : Type} (maxDepth : Nat) (action : EngineM α) : CacheM (α × Counter) :=
  fun cache =>
    match action ⟨cache, { maxDepth }⟩ with
    | .ok value ⟨cache, nesting⟩ => .ok (value, nesting) cache
    | .error fault ⟨cache, _⟩ => .error fault cache

/-- Runs an action with a new engine, which is given up afterwards. -/
def withEngine {α : Type} (config : Config) (action : EngineM α) : CacheM α := do
  let (value, nesting) ← counting config.maxGenericDepth action
  MonadExcept.ofExcept nesting.close
  return value

end Cache

end NominalSubtyping
