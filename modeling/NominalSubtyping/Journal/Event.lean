import NominalSubtyping.Cache.Status
import NominalSubtyping.Graph.Node
import NominalSubtyping.Query.Relation
import NominalSubtyping.Source.Basic

/-!
# Journal events

Everything of note that happens to a cache or a session is recorded as an *event*. An event has a
level, which says how urgent it is, and a channel, which says what part of the library it comes
from.

## Main definitions

* `Event` : the things that are recorded.
* `Event.level`, `Event.channel` : how urgent an event is, and where it comes from.
* `Filter.admits` : whether a reader of the journal wants to see an event.
-/

namespace NominalSubtyping

/-- Something of note. -/
inductive Event where
  /-- A type got a node. -/
  | created (name : String) (id : NodeId)
  /-- The source does not know a name. -/
  | unresolved (name : String)
  /-- A lookup failed. -/
  | lookupFailed (name : String) (error : LookupError)
  /-- A limit cut the walk through a reported hierarchy short. -/
  | truncated (name : String) (maxDepth : Nat)
  /-- A reported hierarchy was taken over in full. -/
  | loaded (name : String) (added : Nat)
  /-- The root of the hierarchy was loaded ahead of the first question. -/
  | preloaded (root : String) (status : LoadStatus)
  /-- One base type does not lie below the other. -/
  | unrelated (sub sup : String)
  /-- A raw type was compared with a supertype that has the argument text `arguments`. -/
  | rawSubtype (arguments : String)
  /-- Two types have no common subtype. -/
  | nothingShared (left right : String)
  /-- Two argument lists differ in length. -/
  | arityMismatch (left right : Nat)
  /-- Arguments are nested deeper than allowed. -/
  | nestedTooDeep (maxDepth : Nat)
  /-- A question was put. -/
  | asked (id : Nat) (relation : Relation) (left right : String)
  /-- A question was answered, or refused with `none`, when the graph had `nodes` nodes. -/
  | answered (id : Nat) (relation : Relation) (verdict : Option Bool) (nodes : Nat)
  deriving DecidableEq, Repr

/-- How urgent an event is. -/
inductive Level where
  | warn
  | debug
  | trace
  deriving DecidableEq, Repr

namespace Level

/-- The rank of a level, the most urgent first. -/
def rank : Level → Nat
  | warn => 0
  | debug => 1
  | trace => 2

end Level

/-- The part of the library that an event comes from. -/
inductive Channel where
  /-- Nodes and loads. -/
  | graph
  /-- The set-up of a session. -/
  | hierarchy
  /-- The comparison of types. -/
  | subtype
  /-- Questions put to a session. -/
  | query
  deriving DecidableEq, Repr

namespace Event

/-- How urgent an event is. -/
def level : Event → Level
  | unresolved .. | lookupFailed .. | truncated .. | nestedTooDeep .. => .warn
  | loaded .. | preloaded .. => .debug
  | created .. | unrelated .. | rawSubtype .. | nothingShared .. | arityMismatch .. | asked ..
  | answered .. => .trace

/-- Where an event comes from. -/
def channel : Event → Channel
  | created .. | unresolved .. | lookupFailed .. | truncated .. | loaded .. => .graph
  | preloaded .. => .hierarchy
  | unrelated .. | rawSubtype .. | nothingShared .. | arityMismatch .. | nestedTooDeep .. =>
    .subtype
  | asked .. | answered .. => .query

end Event

/-- What a reader of the journal wants to see. -/
inductive Filter where
  /-- The events of a level and of all more urgent ones. -/
  | upTo (level : Level)
  /-- The events of one channel. -/
  | only (channel : Channel)
  deriving DecidableEq, Repr

/-- Whether an event passes a filter. -/
def Filter.admits : Filter → Event → Bool
  | upTo level, event => event.level.rank ≤ level.rank
  | only channel, event => event.channel = channel

end NominalSubtyping
