import NominalSubtyping.Journal.Event

/-!
# Journal lines

An event is written as a *line*: the name of its level, the name of its channel, and fields, each
with a name and a text or a number.

## Main definitions

* `Event.line` : the line of an event.
-/

namespace NominalSubtyping

/-- The value of a field of a journal line. -/
inductive FieldValue where
  | text (value : String)
  | number (value : Nat)
  deriving DecidableEq, Repr

/-- An event in writing. -/
structure JournalLine where
  level : String
  channel : String
  fields : List (String × FieldValue)
  deriving DecidableEq, Repr

/-- The name of a level. -/
def Level.name : Level → String
  | warn => "WARN"
  | debug => "DEBUG"
  | trace => "TRACE"

/-- The name of a channel. -/
def Channel.name : Channel → String
  | graph => "typehier_solver::graph"
  | hierarchy => "typehier_solver::hierarchy"
  | subtype => "typehier_solver::subtype"
  | query => "typehier::query_json"

namespace Event

/-- The text of a verdict that may be missing. -/
private def verdictText : Option Bool → String
  | some true => "Some(true)"
  | some false => "Some(false)"
  | none => "None"

/-- The fields that every question's events begin with. -/
private def questionFields (phase : String) (id : Nat) (relation : Relation) :
    List (String × FieldValue) :=
  [("event", .text "query"), ("phase", .text phase), ("run_id", .text "default"),
    ("query_id", .number id), ("op", .text relation.label)]

/-- The fields of an event. -/
def fields : Event → List (String × FieldValue)
  | created name id =>
    [("message", .text "created type node"), ("type_name", .text name), ("node", .number id)]
  | unresolved name =>
    [("message", .text "type provider could not resolve type; assuming no known subtypes"),
      ("type_name", .text name)]
  | lookupFailed name error =>
    [("message", .text "type hierarchy lookup failed"), ("type_name", .text name),
      ("error", .text error.message)]
  | truncated name maxDepth =>
    [("message", .text "subtype hierarchy exceeded load limits; subtree left incomplete"),
      ("type_name", .text name), ("max_depth", .number maxDepth)]
  | loaded name added =>
    [("message", .text "loaded subtype hierarchy"), ("type_name", .text name),
      ("nodes_added", .number added)]
  | preloaded root status =>
    [("message", .text "preloaded root hierarchy"), ("root", .text root),
      ("status", .text status.describe)]
  | unrelated sub sup =>
    [("message", .text "base types unrelated"), ("sub", .text sub), ("sup", .text sup)]
  | rawSubtype arguments =>
    [("message", .text "raw subtype cannot satisfy parameterized supertype"),
      ("sup_args", .text arguments)]
  | nothingShared left right =>
    [("message", .text "no shared subtype"), ("t1", .text left), ("t2", .text right)]
  | arityMismatch left right =>
    [("message", .text "generic arity mismatch"), ("left", .number left),
      ("right", .number right)]
  | nestedTooDeep maxDepth =>
    [("message", .text "generic arguments nested too deeply; treating as unrelated"),
      ("max_depth", .number maxDepth)]
  | asked id relation left right =>
    questionFields "start" id relation ++ [("left", .text left), ("right", .text right)]
  | answered id relation verdict nodes =>
    questionFields "end" id relation ++
      [("result", .text (verdictText verdict)), ("graph_nodes", .number nodes)]

/-- The line of an event. -/
def line (event : Event) : JournalLine :=
  ⟨event.level.name, event.channel.name, event.fields⟩

end Event

end NominalSubtyping
