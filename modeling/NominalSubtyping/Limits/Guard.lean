import NominalSubtyping.Fault
import NominalSubtyping.Limits.Basic

/-!
# Guards

A *guard* watches a recursion over keys. It knows the keys that are being visited, so that a cycle
is noticed, and it counts depth and attempts against its limits. Every attempt counts, also one that
is refused. Among the reasons for a refusal the attempt limit comes first, then the depth limit,
then the cycle. Only the end of a visit can be a fault, and then the guard is as it was when the
fault was noticed.

## Main definitions

* `Guard.enter` : an attempt to visit a key.
* `Guard.release`, `Guard.leave` : the end of a visit.
* `Guard.visit`, `Guard.scope` : a visit around a computation.
* `Guard.close` : gives the guard up, which is a fault while a key is being visited.
-/

namespace NominalSubtyping

/-- The outcome of an attempt to visit a key. -/
inductive Entry where
  /-- The visit begins. -/
  | entered
  /-- The key is already being visited. -/
  | cycle
  /-- The depth limit is reached. -/
  | depthExceeded
  /-- The attempt limit is passed. -/
  | iterationExceeded
  deriving DecidableEq, Repr

namespace Entry

/-- Whether the visit begins. -/
def isEntered : Entry → Bool
  | entered => true
  | _ => false

/-- Whether the attempt was refused because of a cycle. -/
def isCycle : Entry → Bool
  | cycle => true
  | _ => false

/-- Whether the attempt was refused by one of the limits. -/
def isExceeded : Entry → Bool
  | depthExceeded | iterationExceeded => true
  | _ => false

end Entry

/-- The state of a watched recursion over keys. -/
structure Guard (κ : Type) where
  limits : Limits
  /-- The keys being visited, the newest first. -/
  visiting : List κ := []
  depth : Nat := 0
  /-- The number of attempts, up to `Guard.iterationCap`. -/
  iterations : Nat := 0
  /-- Whether a limit has ever refused an attempt. -/
  exceeded : Bool := false
  deriving DecidableEq, Repr

/-- Actions of a guard. -/
abbrev GuardM (κ : Type) := EStateM Fault (Guard κ)

namespace Guard

variable {κ : Type} [DecidableEq κ]

/-- The number at which attempts are no longer counted. -/
def iterationCap : Nat := 4_294_967_295

/-- Attempts to visit `key`. -/
def enter (guard : Guard κ) (key : κ) : Entry × Guard κ :=
  let guard := { guard with iterations := min (guard.iterations + 1) iterationCap }
  if guard.limits.maxIterations < guard.iterations then
    (.iterationExceeded, { guard with exceeded := true })
  else if guard.limits.maxDepth ≤ guard.depth then
    (.depthExceeded, { guard with exceeded := true })
  else if key ∈ guard.visiting then
    (.cycle, guard)
  else
    (.entered, { guard with visiting := key :: guard.visiting, depth := guard.depth + 1 })

/-- Ends the visit of `key`: the key is taken from those being visited, which is a fault if it was
not among them, and then the depth goes down. -/
def release (key : κ) : GuardM κ Unit := do
  let present ← modifyGet fun guard =>
    (decide (key ∈ guard.visiting), { guard with visiting := guard.visiting.erase key })
  unless present do throw .notVisiting
  modify fun guard => { guard with depth := guard.depth - 1 }

/-- Visits `key` around a computation, which does not run if the visit is refused. -/
def visit {α : Type} (key : κ) (body : Unit → α) : GuardM κ (Except Entry α) := do
  match ← modifyGet (·.enter key) with
  | .entered =>
    let result := body ()
    release key
    return .ok result
  | refusal => return .error refusal

/-- The guard after the visit of `key`. -/
def leave (guard : Guard κ) (key : κ) : Except Fault (Guard κ) :=
  match release key guard with
  | .ok _ later => .ok later
  | .error fault _ => .error fault

/-- What comes of a visit around a computation, and the guard after it. -/
def scope {α : Type} (guard : Guard κ) (key : κ) (body : Unit → α) :
    Except Fault (Except Entry α × Guard κ) :=
  match visit key body guard with
  | .ok result later => .ok (result, later)
  | .error fault _ => .error fault

/-- Whether `key` is being visited. -/
def isVisiting (guard : Guard κ) (key : κ) : Bool :=
  key ∈ guard.visiting

/-- Gives the guard up. -/
def close (guard : Guard κ) : Except Fault Unit :=
  match guard.visiting with
  | [] => .ok ()
  | keys => .error (.stillVisiting keys.length)

omit [DecidableEq κ] in
theorem close_eq_ok_iff (guard : Guard κ) : guard.close = .ok () ↔ guard.visiting = [] := by
  rw [close]
  split <;> simp_all

end Guard

end NominalSubtyping
