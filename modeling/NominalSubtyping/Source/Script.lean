import NominalSubtyping.Source.Basic

/-!
# Scripted sources

A *script* fixes beforehand how each name is replied to, the first time it is asked, the second
time, and so on. Scripts stand in for sources that are not at hand: failing ones, ones that change
their mind, and very deep hierarchies.

## Main definitions

* `Response` : one scripted reply, before the name that is asked for is filled in.
* `Script.toSource` : the source that follows a script.
* `Source.tower` : a source with a tower of types below every name.
-/

namespace NominalSubtyping

/-- A scripted reply to whatever name is asked for. -/
inductive Response where
  /-- The name is not known. -/
  | unknown
  /-- The name is known, with these edges, each a subtype and a supertype. -/
  | hierarchy (edges : List (String × String))
  /-- The lookup times out. -/
  | timedOut (timeout : Duration)
  /-- The lookup is given up. -/
  | disconnected
  /-- The lookup fails with a message. -/
  | backend (message : String)
  /-- The source crashes. -/
  | crash (message : String)
  deriving DecidableEq, Repr

/-- The response to a lookup of `name`. -/
def Response.reply (name : String) : Response → Reply
  | unknown => .unknown
  | hierarchy edges => .found ⟨name, .ofEdges edges⟩
  | timedOut timeout => .failed (.timedOut name timeout)
  | disconnected => .failed (.disconnected name)
  | backend message => .failed (.backend name message)
  | crash message => .crashed message

/-- Responses by name, and a response for every other name. -/
structure Script where
  responses : List (String × List Response) := []
  otherwise : Response := .unknown
  deriving DecidableEq, Repr

namespace Script

/-- The response to the lookup of `name` that follows `earlier` lookups of the same name; the last
response of a name repeats. -/
def response (script : Script) (name : String) (earlier : Nat) : Response :=
  match script.responses.lookup name with
  | none | some [] => script.otherwise
  | some (first :: rest) => (first :: rest).getD earlier (rest.getLastD first)

/-- The source that follows a script. -/
def toSource (script : Script) : Source := fun asked name =>
  (script.response name (asked.count name)).reply name

end Script

/-- The edges of a tower below `name`: `T0` directly below it, and each of `T1`, …, up to `height`
types in all, directly below the one before; `T0` is always there. -/
def towerEdges (height : Nat) (name : String) : List (String × String) :=
  ("T0", name) :: (List.range (height - 1)).map fun i =>
    ("T" ++ toString (i + 1), "T" ++ toString i)

/-- The source that reports a tower below every name. -/
def Source.tower (height : Nat) : Source := fun _ name =>
  .found ⟨name, .ofEdges (towerEdges height name)⟩

end NominalSubtyping
