import NominalSubtyping.Cache.Load
import NominalSubtyping.Config.Basic

/-!
# Comparing base types

The base types of a question are compared as names, through the graph. Before they are, what is
needed of the hierarchy is loaded: everything below the supposed supertype, and for a common subtype
everything below both types.

## Main definitions

* `Bases.liesBelow` : whether a name can be reached upwards from another one.
* `Bases.isSubtype` : the subtype question about two names.
* `Bases.overlap` : whether two lists of nodes have a node in common.
* `Bases.shareSubtype` : whether two names have a common subtype.
* `Bases.related` : whether the base types of a question are related.
-/

namespace NominalSubtyping

namespace Bases

open Cache

/-- Whether `sup` can be reached from `sub` over supertype edges, once everything below `sup` has
been loaded as far as it can be. -/
def liesBelow (source : Source) (sub sup : String) : CacheM Bool := do
  let subId ← intern sub
  let supId ← intern sup
  discard (load source sup)
  inspect (·.isAncestor subId supId)

/-- Whether the type named `sub` is a subtype of the type named `sup`. -/
def isSubtype (config : Config) (source : Source) (sub sup : String) : CacheM Bool :=
  match config.verdict? .subtype sub sup with
  | some verdict => return verdict
  | none => do
    let below ← liesBelow source sub sup
    unless below do record (.unrelated sub sup)
    return below

/-- Whether two lists have a node in common. The nodes of the shorter list are looked up in the
longer one. -/
def overlap (left right : List NodeId) : Bool :=
  let (smaller, larger) := if left.length ≤ right.length then (left, right) else (right, left)
  smaller.any (· ∈ larger)

/-- It makes no difference which list the nodes are taken from. -/
theorem overlap_eq_true_iff {left right : List NodeId} :
    overlap left right = true ↔ ∃ id ∈ left, id ∈ right := by
  rw [overlap]
  by_cases hle : left.length ≤ right.length
  · simp [hle]
  · simp [hle, and_comm]

/-- Whether the types named `left` and `right` have a common subtype: one of them, unless the test
of that direction is skipped, or something that can be reached downwards from both. -/
def shareSubtype (config : Config) (source : Source) (skipForward skipBackward : Bool)
    (left right : String) : CacheM Bool := do
  let leftId ← intern left
  let rightId ← intern right
  let forward ← if skipForward then pure false else isSubtype config source left right
  if forward then
    return true
  else
    let backward ← if skipBackward then pure false else isSubtype config source right left
    if backward then
      return true
    else
      discard (load source left)
      discard (load source right)
      let leftBelow ← inspect (·.subtypeClosure leftId)
      let rightBelow ← inspect (·.subtypeClosure rightId)
      return overlap leftBelow rightBelow

/-- Whether the bases of two written types are related. That they are not is recorded with the
types as they were written. -/
def related (config : Config) (source : Source) (relation : Relation) (left right : String)
    (leftBase rightBase : String) : CacheM Bool :=
  match relation with
  | .subtype => do
    let below ← liesBelow source leftBase rightBase
    unless below do record (.unrelated left right)
    return below
  | .common skipForward skipBackward => do
    let shared ← shareSubtype config source skipForward skipBackward leftBase rightBase
    unless shared do record (.nothingShared left right)
    return shared

end Bases

end NominalSubtyping
