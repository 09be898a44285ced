import Mathlib.Algebra.BigOperators.Group.Finset.Defs
import NominalSubtyping.Proofs.Search
import NominalSubtyping.Source.Table

/-!
# The part of a table below a name

A table is cut down to what can be reached from a name by keeping the rows of the supertypes that a
search finds. The cut is exact: the row of a name that can be reached over the edges of the table is
kept whole, and every other name has no row.

## Main definitions

* `SubtypeTable.Reaches` : a chain of edges of the table leads down from one name to another.
* `SubtypeTable.restrict` : the part of the table that can be reached from a name.
* `SubtypeTable.reachable`, `SubtypeTable.reachableEntries` : the names that can be reached from a
  name, and the number of entries among them.

## Main results

* `SubtypeTable.mem_reachable` : the names that can be reached are found by the search.

* `SubtypeTable.below_restrict_of_reaches`, `SubtypeTable.below_restrict_of_not_reaches` : the rows
  of the part of a table below a name.
-/

open Relation (ReflTransGen)

namespace NominalSubtyping.SubtypeTable

variable {table : SubtypeTable} {name other : String}

/-- A chain of edges of the table leads down from `name` to `other`. -/
def Reaches (table : SubtypeTable) : (name other : String) → Prop :=
  ReflTransGen fun sup sub => sub ∈ table.below sup

/-- The part of the table that can be reached from `name` downwards. -/
def restrict (table : SubtypeTable) (name : String) : SubtypeTable :=
  let reached := table.supertypesFrom name
  ⟨table.entries.filter fun sup _ => sup ∈ reached⟩

theorem mem_entries_of_mem_below {sub sup : String} (h : sub ∈ table.below sup) :
    sup ∈ table.entries := by
  by_contra hsup
  rw [below, Std.TreeMap.getD_eq_fallback hsup] at h
  cases h

theorem links_edge_iff : table.links.Edge name other ↔
    other ∈ table.below name ∧ other ∈ table.entries := by
  simp only [Search.Graph.Edge, links, below, Std.TreeMap.getD_eq_getD_getElem?]
  cases table.entries[name]? <;> simp

theorem links_neighbours_ne_none (h : name ∈ table.entries) :
    table.links.neighbours name ≠ none := by
  intro hnone
  rw [links, Option.map_eq_none_iff] at hnone
  rw [Std.TreeMap.mem_iff_isSome_getElem?, hnone] at h
  cases h

theorem mem_entries_of_links (hname : name ∈ table.entries)
    (h : ReflTransGen table.links.Edge name other) : other ∈ table.entries := by
  induction h with
  | refl => exact hname
  | tail _ hedge _ => exact (links_edge_iff.1 hedge).2

/-- Every name on the way to a supertype is a supertype, so the search does not miss it. -/
theorem links_of_reaches (h : table.Reaches name other) (hother : other ∈ table.entries) :
    ReflTransGen table.links.Edge name other := by
  induction h with
  | refl => exact ReflTransGen.refl
  | tail _ hedge ih =>
    exact (ih (mem_entries_of_mem_below hedge)).tail (links_edge_iff.2 ⟨hedge, hother⟩)

theorem mem_supertypesFrom (hother : other ∈ table.entries) :
    other ∈ table.supertypesFrom name ↔ table.Reaches name other := by
  rw [supertypesFrom]
  by_cases hname : name ∈ table.entries
  · rw [if_pos hname]
    have hexact := Search.exploreFrom_exact table.links .queue (fun _ => false) name
    split
    · rename_i reached hdone
      rw [hdone] at hexact
      rw [hexact.2.1]
      refine ⟨fun h => ?_, fun h => links_of_reaches h hother⟩
      exact ReflTransGen.mono (fun _ _ he => (links_edge_iff.1 he).1) _ _ h
    · rename_i item hstuck
      rw [hstuck] at hexact
      exact absurd hexact.2 (links_neighbours_ne_none (mem_entries_of_links hname hexact.1))
    · rename_i hfound
      rw [hfound] at hexact
      obtain ⟨_, _, -, -, hgoal⟩ := hexact
      cases hgoal
  · rw [if_neg hname]
    refine ⟨fun h => (by cases h), fun h => ?_⟩
    rcases ReflTransGen.cases_head h with rfl | ⟨_, hedge, -⟩
    · exact absurd hother hname
    · exact absurd (mem_entries_of_mem_below hedge) hname

/-- The names that can be reached from `name` downwards, `name` among them. -/
def reachable (table : SubtypeTable) (name : String) : Finset String :=
  insert name ((table.supertypesFrom name).flatMap table.below).toFinset

/-- The number of entries, each a supertype and a subtype, among the names that can be reached from
`name` downwards. -/
def reachableEntries (table : SubtypeTable) (name : String) : Nat :=
  ∑ sup ∈ table.reachable name, (table.below sup).length

theorem mem_reachable : other ∈ table.reachable name ↔ table.Reaches name other := by
  rw [reachable, Finset.mem_insert, List.mem_toFinset, List.mem_flatMap]
  constructor
  · rintro (rfl | ⟨sup, hsup, hother⟩)
    · exact ReflTransGen.refl
    · exact ((mem_supertypesFrom (mem_entries_of_mem_below hother)).1 hsup).tail hother
  · intro hreaches
    rcases ReflTransGen.cases_tail hreaches with rfl | ⟨sup, hsup, hother⟩
    · exact Or.inl rfl
    · exact Or.inr ⟨sup, (mem_supertypesFrom (mem_entries_of_mem_below hother)).2 hsup, hother⟩

theorem below_restrict : (table.restrict name).below other =
    if other ∈ table.supertypesFrom name then table.below other else [] := by
  rw [restrict, below, below, Std.TreeMap.getD_filter', Std.TreeMap.getD_eq_getD_getElem?]
  by_cases h : other ∈ table.supertypesFrom name
  · rw [if_pos h, decide_eq_true h]
    cases table.entries[other]? <;> rfl
  · rw [if_neg h, decide_eq_false h]
    cases table.entries[other]? <;> rfl

theorem below_restrict_of_reaches (h : table.Reaches name other) :
    (table.restrict name).below other = table.below other := by
  rw [below_restrict]
  by_cases hother : other ∈ table.entries
  · rw [if_pos ((mem_supertypesFrom hother).2 h)]
  · rw [below, Std.TreeMap.getD_eq_fallback hother, ite_self]

theorem below_restrict_of_not_reaches (h : ¬ table.Reaches name other) :
    (table.restrict name).below other = [] := by
  rw [below_restrict]
  by_cases hother : other ∈ table.entries
  · rw [if_neg fun hmem => h ((mem_supertypesFrom hother).1 hmem)]
  · rw [below, Std.TreeMap.getD_eq_fallback hother, ite_self]

theorem mem_below_of_mem_restrict {sub : String} (h : sub ∈ (table.restrict name).below other) :
    sub ∈ table.below other := by
  by_cases hr : table.Reaches name other
  · rwa [below_restrict_of_reaches hr] at h
  · rw [below_restrict_of_not_reaches hr] at h
    cases h

end NominalSubtyping.SubtypeTable
