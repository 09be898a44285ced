import NominalSubtyping.Source.Basic

/-!
# Deadlines

A *backend* is like a source, except that a lookup may stall. Under a *deadline* a backend becomes
a source: a stalled lookup fails once the time allowed is over, and a lookup that crashes is
reported as given up, since nobody is left to reply.

## Main definitions

* `Backend` : a source whose lookups may stall.
* `Backend.withDeadline` : a backend under a deadline.
-/

namespace NominalSubtyping

/-- A source of type information that gives no reply, `none`, to a lookup that stalls. -/
abbrev Backend := List String → String → Option Reply

namespace Backend

/-- The backend whose lookups all stall. -/
def stalled : Backend := fun _ _ => none

/-- A source, whose lookups never stall. -/
def ofSource (source : Source) : Backend := fun asked name => some (source asked name)

/-- The backend under a deadline. -/
def withDeadline (backend : Backend) (timeout : Duration) : Source := fun asked name =>
  match backend asked name with
  | none => .failed (.timedOut name timeout)
  | some (.crashed _) => .failed (.disconnected name)
  | some reply => reply

end Backend

end NominalSubtyping
