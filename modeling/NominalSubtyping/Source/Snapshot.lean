import NominalSubtyping.Source.Table

/-!
# Snapshots

A *snapshot* is what a source answers when it is asked for a name that it knows: the name, called
the root, and a subtype table that describes the hierarchy below it.
-/

namespace NominalSubtyping

/-- A reported hierarchy below one type. -/
structure Snapshot where
  root : String
  table : SubtypeTable := {}
  deriving BEq

namespace Snapshot

/-- Adds an edge to the reported hierarchy. -/
def add (snapshot : Snapshot) (sup sub : String) : Snapshot :=
  { snapshot with table := snapshot.table.add sup sub }

/-- The direct subtypes of `name` in the reported hierarchy. -/
def directSubtypes (snapshot : Snapshot) (name : String) : List String :=
  snapshot.table.below name

/-- The number of types with a reported subtype. -/
def size (snapshot : Snapshot) : Nat :=
  snapshot.table.size

/-- The types with a reported subtype that can be reached from the root, in breadth-first order,
each with its direct subtypes. -/
def listing (snapshot : Snapshot) : List (String × List String) :=
  (snapshot.table.supertypesFrom snapshot.root).map fun name =>
    (name, snapshot.directSubtypes name)

end Snapshot

end NominalSubtyping
