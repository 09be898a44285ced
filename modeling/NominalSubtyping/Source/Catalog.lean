import NominalSubtyping.Source.Basic
import Std.Data.TreeSet

/-!
# Catalogs

A *catalog* is a source that is declared in full beforehand. It knows every name that occurs in a
declaration, and replies to a known name with the hierarchy below it. The hierarchy is *collected*
from the table of the catalog: the names to be continued from wait in a queue, each name that is
taken from it has its edges added to the hierarchy, and the subtypes that had not been met before
join the queue.

## Main definitions

* `Catalog.declare`, `Catalog.declareType` : the declarations.
* `Collection.meet` : adds one edge to a hierarchy that is being collected.
* `SubtypeTable.collect` : adds all that can be reached.
* `Catalog.hierarchy`, `Catalog.snapshot?` : the hierarchy below a name.
* `Catalog.lookup` : the same, counted.
* `Catalog.toSource` : the catalog as a source.
-/

namespace NominalSubtyping

/-- A hierarchy that is being collected: what has been added to it, the names that were met, the
newest first, and those of them that are still to be continued from, the oldest first. -/
structure Collection where
  snapshot : Snapshot
  met : List String
  pending : List String

namespace Collection

/-- Adds an edge below `sup`; a subtype that is met for the first time is to be continued from. -/
def meet (sup : String) (collection : Collection) (sub : String) : Collection :=
  let snapshot := collection.snapshot.add sup sub
  if sub ∈ collection.met then { collection with snapshot }
  else ⟨snapshot, sub :: collection.met, collection.pending ++ [sub]⟩

/-- Adds the edges from `subs` up to `sup`, one after the other. -/
def meetAll (collection : Collection) (sup : String) (subs : List String) : Collection :=
  subs.foldl (meet sup) collection

/-- What some edges discover is to be continued from, after what is waiting already. -/
theorem meetAll_eq (collection : Collection) (sup : String) (subs : List String) :
    collection.meetAll sup subs =
      ⟨subs.foldl (fun snapshot sub => snapshot.add sup sub) collection.snapshot,
        (Search.discover collection.met subs).reverse ++ collection.met,
        collection.pending ++ Search.discover collection.met subs⟩ := by
  rw [meetAll]
  induction subs generalizing collection with
  | nil => simp [Search.discover]
  | cons sub subs ih =>
    rw [List.foldl_cons, ih, meet, Search.discover, List.foldl_cons]
    by_cases hmet : sub ∈ collection.met <;> simp [hmet]

end Collection

/-- Adds all edges of the table that can be reached from the `pending` names, which are among the
names that were `met`. -/
def SubtypeTable.collect (table : SubtypeTable) (snapshot : Snapshot) (met pending : List String) :
    Snapshot :=
  match pending with
  | [] => snapshot
  | name :: rest =>
    match _row : table.entries[name]? with
    | none => table.collect snapshot met rest
    | some subs =>
      let next := Collection.meetAll ⟨snapshot, met, rest⟩ name subs
      table.collect next.snapshot next.met next.pending
termination_by Search.unreached (table.edges.map Prod.fst) met + pending.length
decreasing_by
  · simp only [List.length_cons]
    omega
  · have hle := Search.unreached_discover_le (table.edges.map Prod.fst) subs met
    have hsubs : (Search.discover met subs).countP (· ∈ table.edges.map Prod.fst) =
        (Search.discover met subs).length := by
      refine List.countP_eq_length.2 fun sub hsub => decide_eq_true (List.mem_map.2 ?_)
      refine ⟨(sub, name), SubtypeTable.mem_edges.2 ?_, rfl⟩
      rw [SubtypeTable.below, Std.TreeMap.getD_eq_getD_getElem?, _row]
      exact (Search.mem_discover.1 hsub).1
    simp only [Collection.meetAll_eq, List.length_append, List.length_cons]
    omega

/-- Declared types and edges, with the number of lookups served so far. -/
structure Catalog where
  table : SubtypeTable := {}
  known : Std.TreeSet String := ∅
  lookups : Nat := 0

namespace Catalog

/-- Makes `name` known without any edge. -/
def declareType (catalog : Catalog) (name : String) : Catalog :=
  { catalog with known := catalog.known.insert name }

/-- Declares `sub` a direct subtype of `sup`. -/
def declare (catalog : Catalog) (sub sup : String) : Catalog :=
  let catalog := (catalog.declareType sub).declareType sup
  { catalog with table := catalog.table.add sup sub }

/-- Declares `sub` a direct subtype of each of `sups`. -/
def declareAll (catalog : Catalog) (sub : String) (sups : List String) : Catalog :=
  sups.foldl (fun catalog sup => catalog.declare sub sup) catalog

/-- The catalog of some types and some edges, each edge a subtype and a supertype. -/
def ofDeclarations (types : List String) (edges : List (String × String)) : Catalog :=
  edges.foldl (fun catalog edge => catalog.declare edge.1 edge.2) (types.foldl declareType {})

/-- Whether `name` occurs in a declaration. -/
def isKnown (catalog : Catalog) (name : String) : Bool :=
  name ∈ catalog.known

/-- The declared hierarchy below `name`. -/
def hierarchy (catalog : Catalog) (name : String) : Snapshot :=
  catalog.table.collect { root := name } [name] [name]

/-- The declared hierarchy below `name`, if `name` is known. -/
def snapshot? (catalog : Catalog) (name : String) : Option Snapshot :=
  if catalog.isKnown name then some (catalog.hierarchy name) else none

/-- The declared hierarchy below `name`, and the catalog with one more lookup served. -/
def lookup (catalog : Catalog) (name : String) : Option Snapshot × Catalog :=
  (catalog.snapshot? name, { catalog with lookups := catalog.lookups + 1 })

/-- The catalog as a source, which replies the same to the same name every time. -/
def toSource (catalog : Catalog) : Source := fun _ name =>
  match catalog.snapshot? name with
  | some snapshot => .found snapshot
  | none => .unknown

end Catalog

end NominalSubtyping
