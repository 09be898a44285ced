import NominalSubtyping.Duration
import NominalSubtyping.Source.Snapshot

/-!
# Sources of type information

The library resolves no names itself. It asks a *source* for the hierarchy below a name. A source
may be slow, may fail, and may answer the same question differently each time it is asked; all that
is assumed is that its reply is determined by the names asked before and the name asked now.

## Main definitions

* `Reply` : what a source replies.
* `Source` : a source, as a function of the names asked so far.
* `Source.replies` : the replies to names asked one after the other.
-/

namespace NominalSubtyping

/-- The failures that a source reports, each with the name that was asked for. -/
inductive LookupError where
  /-- There was no reply within the time allowed. -/
  | timedOut (name : String) (timeout : Duration)
  /-- The source gave the lookup up. -/
  | disconnected (name : String)
  /-- The source failed for a reason of its own. -/
  | backend (name message : String)
  deriving DecidableEq, Repr

namespace LookupError

/-- The name that was asked for. -/
def typeName : LookupError → String
  | timedOut name _ | disconnected name | backend name _ => name

/-- The text shown to the user. -/
def message : LookupError → String
  | timedOut name timeout =>
    "type hierarchy lookup for `" ++ name ++ "` did not finish within " ++ timeout.render
  | disconnected name =>
    "type hierarchy lookup for `" ++ name ++ "` was abandoned by the provider"
  | backend name message => "type hierarchy lookup for `" ++ name ++ "` failed: " ++ message

end LookupError

/-- What a source replies when it is asked for a name. -/
inductive Reply where
  /-- The name is known, with this hierarchy below it. -/
  | found (snapshot : Snapshot)
  /-- The name is not known. -/
  | unknown
  /-- The lookup failed. -/
  | failed (error : LookupError)
  /-- The source crashed. -/
  | crashed (message : String)

/-- A source of type information: `source asked name` is the reply to `name` after the names
`asked`, the newest first. -/
abbrev Source := List String → String → Reply

namespace Source

/-- The replies to `names` asked one after the other, after the names `asked`. -/
def replies (source : Source) (asked : List String) : List String → List Reply
  | [] => []
  | name :: names => source asked name :: source.replies (name :: asked) names

end Source

end NominalSubtyping
