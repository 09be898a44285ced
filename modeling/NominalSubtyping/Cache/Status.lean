/-!
# Load statuses

What became of an attempt to load everything below a type.
-/

namespace NominalSubtyping

/-- The outcome of a load. -/
inductive LoadStatus where
  /-- Everything had been loaded before; the source was not asked. -/
  | alreadyComplete
  /-- The reported hierarchy was taken over in full, with `added` new nodes. -/
  | loaded (added : Nat)
  /-- The source does not know the name. -/
  | unresolved
  /-- The lookup failed. -/
  | failed
  /-- A limit cut the walk through the reported hierarchy short. -/
  | truncated
  deriving DecidableEq, Repr

namespace LoadStatus

/-- Whether the type is complete afterwards. -/
def isComplete : LoadStatus → Bool
  | alreadyComplete | loaded _ => true
  | unresolved | failed | truncated => false

/-- The name of the status. -/
def name : LoadStatus → String
  | alreadyComplete => "AlreadyComplete"
  | loaded _ => "Loaded"
  | unresolved => "Unresolved"
  | failed => "Failed"
  | truncated => "Truncated"

/-- The name of the status together with its data. -/
def describe (status : LoadStatus) : String :=
  match status with
  | loaded added => status.name ++ " \x7b nodes_added: " ++ toString added ++ " \x7d"
  | _ => status.name

example : (loaded 5).describe = "Loaded \x7b nodes_added: 5 \x7d" := by decide +kernel

end LoadStatus

end NominalSubtyping
