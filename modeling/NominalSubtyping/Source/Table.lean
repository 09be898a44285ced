import NominalSubtyping.Search
import Std.Data.TreeMap

/-!
# Subtype tables

A *subtype table* lists, for each of its supertypes, the direct subtypes in the order in which they
were first added. It is what sources answer with and what catalogs are made of.

## Main definitions

* `SubtypeTable.add`, `SubtypeTable.below` : adding an edge, reading the edges of one supertype.
* `SubtypeTable.edges` : the edges of a table.
* `SubtypeTable.supertypesFrom` : the supertypes of the table that can be reached from a name.
-/

namespace NominalSubtyping

/-- Direct subtypes by supertype. -/
structure SubtypeTable where
  entries : Std.TreeMap String (List String) := ∅

namespace SubtypeTable

/-- The direct subtypes of `name`, none if the table does not list it. -/
def below (table : SubtypeTable) (name : String) : List String :=
  table.entries.getD name []

/-- Adds `sub` as the last direct subtype of `sup`, unless it is one already. -/
def add (table : SubtypeTable) (sup sub : String) : SubtypeTable :=
  let known := table.below sup
  if sub ∈ known then table else ⟨table.entries.insert sup (known ++ [sub])⟩

theorem below_add (table : SubtypeTable) (sup sub name : String) :
    (table.add sup sub).below name =
      if name = sup ∧ sub ∉ table.below sup then table.below sup ++ [sub]
      else table.below name := by
  rw [add]
  split
  · rename_i h
    rw [if_neg fun hn => hn.2 h]
  · rename_i h
    by_cases hn : name = sup
    · subst hn
      rw [if_pos ⟨rfl, h⟩]
      exact Std.TreeMap.getD_insert_self
    · rw [if_neg fun hs => hn hs.1, below, Std.TreeMap.getD_insert, if_neg]
      · rfl
      · exact fun hc => hn (Std.LawfulEqCmp.compare_eq_iff_eq.1 hc).symm

/-- The table of a list of edges, each a subtype and a supertype. -/
def ofEdges (edges : List (String × String)) : SubtypeTable :=
  edges.foldl (fun table edge => table.add edge.2 edge.1) {}

/-- The edges of the table, each a subtype and a supertype. -/
def edges (table : SubtypeTable) : List (String × String) :=
  table.entries.toList.flatMap fun row => row.2.map fun sub => (sub, row.1)

theorem mem_edges {table : SubtypeTable} {sub sup : String} :
    (sub, sup) ∈ table.edges ↔ sub ∈ table.below sup := by
  rw [edges, List.mem_flatMap, below, Std.TreeMap.getD_eq_getD_getElem?]
  constructor
  · rintro ⟨⟨key, subs⟩, hrow, hmem⟩
    obtain ⟨sub', hsub', heq⟩ := List.mem_map.1 hmem
    obtain ⟨rfl, rfl⟩ := Prod.mk.inj heq
    rw [Std.TreeMap.mem_toList_iff_getElem?_eq_some.1 hrow]
    exact hsub'
  · intro hmem
    cases hrow : table.entries[sup]? with
    | none =>
      rw [hrow] at hmem
      cases hmem
    | some subs =>
      rw [hrow] at hmem
      exact ⟨(sup, subs), Std.TreeMap.mem_toList_iff_getElem?_eq_some.2 hrow,
        List.mem_map.2 ⟨sub, hmem, rfl⟩⟩

/-- The number of supertypes. -/
def size (table : SubtypeTable) : Nat :=
  table.entries.size

/-- The supertypes of the table as a graph to search: the neighbours of a supertype are those of its
direct subtypes that are supertypes too. -/
def links (table : SubtypeTable) : Search.Graph String where
  neighbours name := table.entries[name]?.map fun subs => subs.filter (· ∈ table.entries)
  items := table.entries.keys
  mem_items name subs h := by
    obtain ⟨_, found, _⟩ := Option.map_eq_some_iff.1 h
    rw [Std.TreeMap.mem_keys, Std.TreeMap.mem_iff_isSome_getElem?, found]
    rfl

/-- The supertypes that can be reached from `name` downwards, in breadth-first order. -/
def supertypesFrom (table : SubtypeTable) (name : String) : List String :=
  if name ∈ table.entries then
    match Search.exploreFrom table.links .queue (fun _ => false) name with
    | .exhausted reached => reached
    | .stuck _ | .found => []
  else
    []

/-- Two tables are the same if they list the same supertypes with the same subtypes in the same
order. -/
instance : BEq SubtypeTable where
  beq s t := s.entries.toList = t.entries.toList

end SubtypeTable

end NominalSubtyping
