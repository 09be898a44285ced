import Mathlib.Algebra.Order.BigOperators.Group.Finset
import NominalSubtyping.Proofs.Graph.Primitives
import NominalSubtyping.Proofs.Source.Collection

/-!
# Declared hierarchies

A catalog is *built* by declarations, from nothing and in any order. It then knows both ends of
every edge in its table, and lists no edge twice. The number of its known names and the number of
its edges measure how much there is to load.

The hierarchy that a session sees is not only the declared one. The widenings between the primitive
types belong to it, and nothing that is declared below a primitive type does. A type lies *below*
another one if a chain of such direct steps leads up to it.

## Main definitions

* `Catalog.Built` : catalogs that are made by declarations.
* `Catalog.edgeCount` : the number of declared edges.
* `Catalog.Direct`, `Catalog.Below` : the hierarchy of a session over the catalog.

## Main results

* `Catalog.Built.mem_known` : both ends of a declared edge are known.
* `Catalog.Built.hierarchy_equiv_restrict` : the hierarchy below a name is what can be reached.
* `Catalog.Built.sum_length_below_le` : the rows of known names hold no more than all edges.
-/

open Relation (ReflTransGen)

namespace NominalSubtyping

namespace Catalog

variable {catalog : Catalog} {sub sup name : String}

/-- Catalogs that are made by declarations. -/
inductive Built : Catalog → Prop
  | empty : Built {}
  | declareType {catalog : Catalog} (h : Built catalog) (name : String) :
      Built (catalog.declareType name)
  | declare {catalog : Catalog} (h : Built catalog) (sub sup : String) :
      Built (catalog.declare sub sup)

/-- The number of declared edges. -/
def edgeCount (catalog : Catalog) : Nat :=
  catalog.table.edges.length

/-- The type named `sub` is directly below the type named `sup`, by a widening or by a
declaration. -/
def Direct (catalog : Catalog) (sub sup : String) : Prop :=
  Primitive.Widens sub sup ∨ (isPrimitive sup = false ∧ sub ∈ catalog.table.below sup)

/-- A chain of direct steps leads from the type named `sub` up to the type named `sup`. -/
def Below (catalog : Catalog) : (sub sup : String) → Prop :=
  ReflTransGen catalog.Direct

/-- Above a type that is not primitive there is only what was declared. -/
theorem direct_iff_of_not_primitive (h : isPrimitive sup = false) :
    catalog.Direct sub sup ↔ sub ∈ catalog.table.below sup := by
  refine ⟨fun hd => ?_, fun hmem => Or.inr ⟨h, hmem⟩⟩
  rcases hd with hw | hd
  · rw [hw.isPrimitive.2] at h
    cases h
  · exact hd.2

/-- Below a primitive type there are only its widenings. -/
theorem direct_iff_of_primitive (h : isPrimitive sup = true) :
    catalog.Direct sub sup ↔ Primitive.Widens sub sup := by
  refine ⟨fun hd => ?_, Or.inl⟩
  rcases hd with hw | hd
  · exact hw
  · rw [h] at hd
    cases hd.1

theorem below_declare {row : String} : (catalog.declare sub sup).table.below row =
    if row = sup ∧ sub ∉ catalog.table.below sup then catalog.table.below sup ++ [sub]
    else catalog.table.below row :=
  SubtypeTable.below_add ..

theorem mem_below_declare {row : String} :
    sub ∈ (catalog.declare name sup).table.below row ↔
      sub ∈ catalog.table.below row ∨ (row = sup ∧ sub = name) := by
  rw [below_declare]
  split
  · rename_i h
    rw [h.1, List.mem_append, List.mem_singleton]
    simp
  · rename_i h
    refine ⟨Or.inl, fun hmem => ?_⟩
    rcases hmem with hmem | ⟨rfl, rfl⟩
    · exact hmem
    · by_contra hnew
      exact h ⟨rfl, hnew⟩

theorem mem_known_declareType {other : String} :
    other ∈ (catalog.declareType name).known ↔ name = other ∨ other ∈ catalog.known := by
  rw [declareType, Std.TreeSet.mem_insert, Std.LawfulEqCmp.compare_eq_iff_eq]

theorem mem_known_declare {other : String} :
    other ∈ (catalog.declare name sup).known ↔
      sup = other ∨ name = other ∨ other ∈ catalog.known := by
  rw [declare, mem_known_declareType, mem_known_declareType]

namespace Built

/-- Both ends of a declared edge are known. -/
theorem mem_known (h : catalog.Built) (hmem : sub ∈ catalog.table.below sup) :
    sub ∈ catalog.known ∧ sup ∈ catalog.known := by
  induction h with
  | empty =>
    rw [SubtypeTable.below, Std.TreeMap.getD_emptyc] at hmem
    cases hmem
  | declareType h name ih =>
    obtain ⟨hsub, hsup⟩ := ih hmem
    exact ⟨mem_known_declareType.2 (Or.inr hsub), mem_known_declareType.2 (Or.inr hsup)⟩
  | declare h name other ih =>
    rw [mem_known_declare, mem_known_declare]
    rcases mem_below_declare.1 hmem with hmem | ⟨rfl, rfl⟩
    · exact ⟨Or.inr (Or.inr (ih hmem).1), Or.inr (Or.inr (ih hmem).2)⟩
    · exact ⟨Or.inr (Or.inl rfl), Or.inl rfl⟩

/-- Every row was begun by an edge, and no edge is listed twice. -/
theorem tidy (h : catalog.Built) : catalog.table.Tidy := by
  induction h with
  | empty => exact SubtypeTable.tidy_empty
  | declareType h name ih => exact ih
  | declare h sub sup ih => exact ih.add sup sub

/-- The hierarchy below a name is the part of the declared table that can be reached from there. -/
theorem hierarchy_equiv_restrict (h : catalog.Built) (name : String) :
    (catalog.hierarchy name).root = name ∧
      (catalog.hierarchy name).table.entries.Equiv (catalog.table.restrict name).entries :=
  SubtypeTable.collect_equiv_restrict h.tidy name

theorem directSubtypes_hierarchy (h : catalog.Built) (name other : String) :
    (catalog.hierarchy name).directSubtypes other = (catalog.table.restrict name).below other :=
  (h.hierarchy_equiv_restrict name).2.getD_eq

theorem size_hierarchy (h : catalog.Built) (name : String) :
    (catalog.hierarchy name).size = (catalog.table.restrict name).size :=
  (h.hierarchy_equiv_restrict name).2.size_eq

/-- What a hierarchy lists was declared. -/
theorem mem_below_of_hierarchy (h : catalog.Built)
    (hsub : sub ∈ (catalog.hierarchy name).directSubtypes sup) : sub ∈ catalog.table.below sup := by
  rw [h.directSubtypes_hierarchy] at hsub
  exact SubtypeTable.mem_below_of_mem_restrict hsub

end Built

/-- The known names. -/
def names (catalog : Catalog) : Finset String :=
  catalog.known.toList.toFinset

@[simp]
theorem mem_names : name ∈ catalog.names ↔ name ∈ catalog.known := by
  rw [names, List.mem_toFinset, Std.TreeSet.mem_toList]

theorem card_names_le (catalog : Catalog) : catalog.names.card ≤ catalog.known.size := by
  rw [← Std.TreeSet.length_toList]
  exact List.toFinset_card_le _

/-- The rows of some names hold no more than all edges. -/
theorem Built.sum_length_below_le (h : catalog.Built) (names : Finset String) :
    ∑ name ∈ names, (catalog.table.below name).length ≤ catalog.edgeCount := by
  have hrow (name : String) : (catalog.table.below name).length =
      (catalog.table.edges.toFinset.filter fun edge => edge.2 = name).card := by
    rw [← List.toFinset_card_of_nodup (h.tidy.nodup name)]
    refine Finset.card_bij (fun sub _ => (sub, name)) ?_ ?_ ?_
    · intro sub hsub
      rw [Finset.mem_filter, List.mem_toFinset, SubtypeTable.mem_edges]
      exact ⟨List.mem_toFinset.1 hsub, rfl⟩
    · intro a _ b _ heq
      exact (Prod.mk.inj heq).1
    · rintro ⟨sub, sup⟩ hedge
      rw [Finset.mem_filter, List.mem_toFinset, SubtypeTable.mem_edges] at hedge
      obtain ⟨hmem, rfl⟩ := hedge
      exact ⟨sub, List.mem_toFinset.2 hmem, rfl⟩
  calc ∑ name ∈ names, (catalog.table.below name).length
      = ∑ name ∈ names, (catalog.table.edges.toFinset.filter fun edge => edge.2 = name).card :=
        Finset.sum_congr rfl fun name _ => hrow name
    _ = (catalog.table.edges.toFinset.filter fun edge => edge.2 ∈ names).card :=
        Finset.sum_card_fiberwise_eq_card_filter _ _ _
    _ ≤ catalog.table.edges.toFinset.card := Finset.card_filter_le _ _
    _ ≤ catalog.edgeCount := List.toFinset_card_le _

end Catalog

end NominalSubtyping
