import NominalSubtyping.Proofs.Source.Table
import NominalSubtyping.Source.Catalog

/-!
# Collecting the hierarchy below a name

The hierarchy below a name is collected edge by edge, into a table of its own. While it is being
collected, the names that were met can all be reached, and those of them that are no longer pending
have their whole row in the hierarchy and all their subtypes among the names that were met; no other
name has a row yet. When nothing is pending, the names that were met are those that can be reached.
So what has been collected is the part of the table that can be reached, provided that no row of the
table is empty or lists a name twice: an edge is only added to a row that does not have it.

## Main definitions

* `SubtypeTable.Tidy` : no row is empty or lists a name twice.
* `SubtypeTable.Collects` : the invariant of collecting.

## Main results

* `SubtypeTable.Collects.take` : adding the row of a pending name keeps the invariant.
* `SubtypeTable.collect_equiv_restrict` : what is collected is the part that can be reached.
-/

open Relation (ReflTransGen)

namespace NominalSubtyping.SubtypeTable

variable {table : SubtypeTable} {sup sub name : String}

/-! ### Rows -/

theorem getElem?_eq_some_below (h : sup ∈ table.entries) :
    table.entries[sup]? = some (table.below sup) := by
  rw [below, Std.TreeMap.getD_eq_getD_getElem?]
  rw [Std.TreeMap.mem_iff_isSome_getElem?] at h
  obtain ⟨subs, hsubs⟩ := Option.isSome_iff_exists.1 h
  rw [hsubs]
  rfl

/-- An edge is the last one of its row, unless the row has it already. -/
theorem getElem?_add (table : SubtypeTable) (sup sub name : String) :
    (table.add sup sub).entries[name]? =
      if name = sup then
        some (if sub ∈ table.below sup then table.below sup else table.below sup ++ [sub])
      else table.entries[name]? := by
  rw [add]
  by_cases hsub : sub ∈ table.below sup
  · rw [if_pos hsub, if_pos hsub]
    split
    · rename_i hname
      rw [hname]
      exact getElem?_eq_some_below (mem_entries_of_mem_below hsub)
    · rfl
  · have hsame : compare sup name = .eq ↔ name = sup :=
      Std.LawfulEqCmp.compare_eq_iff_eq.trans eq_comm
    rw [if_neg hsub, if_neg hsub, Std.TreeMap.getElem?_insert]
    simp only [hsame]

/-- New edges are added to a row in their order. -/
theorem getElem?_foldl_add {subs : List String} :
    ∀ {table : SubtypeTable}, (table.below sup ++ subs).Nodup → ∀ name,
      (subs.foldl (fun table sub => table.add sup sub) table).entries[name]? =
        if name = sup ∧ subs ≠ [] then some (table.below sup ++ subs)
        else table.entries[name]? := by
  induction subs with
  | nil => simp
  | cons sub subs ih =>
    intro table hnodup name
    have hnew : sub ∉ table.below sup := by
      intro hmem
      exact List.disjoint_of_nodup_append hnodup hmem List.mem_cons_self
    have hrow : (table.add sup sub).below sup = table.below sup ++ [sub] := by
      rw [below_add, if_pos ⟨rfl, hnew⟩]
    rw [List.foldl_cons, ih (by rwa [hrow, List.append_assoc]), hrow, getElem?_add, if_neg hnew]
    by_cases hname : name = sup
    · by_cases hsubs : subs = [] <;> simp [hname, hsubs]
    · simp [hname]

/-- No row of the table is empty, and none lists a name twice. -/
structure Tidy (table : SubtypeTable) : Prop where
  nodup : ∀ sup, (table.below sup).Nodup
  nonempty : ∀ sup ∈ table.entries, table.below sup ≠ []

theorem tidy_empty : Tidy {} where
  nodup sup := by
    rw [below, Std.TreeMap.getD_emptyc]
    exact List.nodup_nil
  nonempty sup h := by simp at h

theorem Tidy.add (h : table.Tidy) (sup sub : String) : (table.add sup sub).Tidy where
  nodup name := by
    rw [below_add]
    split
    · rename_i hrow
      exact List.Nodup.append (h.nodup sup) (List.nodup_singleton sub)
        (List.disjoint_singleton.2 hrow.2)
    · exact h.nodup name
  nonempty name hname := by
    rw [below_add]
    split
    · exact List.append_ne_nil_of_right_ne_nil _ (List.cons_ne_nil _ _)
    · rename_i hrow
      rw [Std.TreeMap.mem_iff_isSome_getElem?, getElem?_add] at hname
      by_cases heq : name = sup
      · subst heq
        exact List.ne_nil_of_mem (not_not.1 fun hsub => hrow ⟨rfl, hsub⟩)
      · rw [if_neg heq, ← Std.TreeMap.mem_iff_isSome_getElem?] at hname
        exact h.nonempty name hname

/-- A name has a row if it has subtypes. -/
theorem Tidy.getElem?_eq (h : table.Tidy) (name : String) :
    table.entries[name]? = if table.below name ≠ [] then some (table.below name) else none := by
  by_cases hname : name ∈ table.entries
  · rw [if_pos (h.nonempty name hname)]
    exact getElem?_eq_some_below hname
  · have hnone : table.entries[name]? = none := by
      rwa [Std.TreeMap.mem_iff_isSome_getElem?, Option.not_isSome_iff_eq_none] at hname
    rw [hnone, below, Std.TreeMap.getD_eq_fallback hname]
    rfl

/-! ### The invariant of collecting -/

/-- The state of a collection from `start`: what has been added, which names were met, and which of
them are pending. -/
structure Collects (table : SubtypeTable) (start : String) (snapshot : Snapshot)
    (met pending : List String) : Prop where
  root_eq : snapshot.root = start
  start_mem : start ∈ met
  nodup : pending.Nodup
  pending_subset : ∀ name ∈ pending, name ∈ met
  sound : ∀ name ∈ met, table.Reaches start name
  row_eq : ∀ name, snapshot.table.entries[name]? =
    if name ∈ met ∧ name ∉ pending then table.entries[name]? else none
  expanded : ∀ name ∈ met, name ∉ pending → ∀ sub ∈ table.below name, sub ∈ met

theorem collects_start (table : SubtypeTable) (start : String) :
    Collects table start { root := start } [start] [start] where
  root_eq := rfl
  start_mem := List.mem_singleton_self start
  nodup := List.nodup_singleton start
  pending_subset _ h := h
  sound name h := by
    rw [List.mem_singleton.1 h]
    exact ReflTransGen.refl
  row_eq name := by simp
  expanded name h hpending := absurd h hpending

namespace Collects

variable {start : String} {snapshot : Snapshot} {met pending rest : List String}

/-- A snapshot adds edges to its table. -/
theorem table_foldl_add (snapshot : Snapshot) (sup : String) (subs : List String) :
    (subs.foldl (fun snapshot sub => snapshot.add sup sub) snapshot) =
      ⟨snapshot.root, subs.foldl (fun table sub => table.add sup sub) snapshot.table⟩ := by
  induction subs generalizing snapshot with
  | nil => rfl
  | cons sub subs ih => exact ih (snapshot.add sup sub)

/-- Adding the row of a pending name keeps the invariant. -/
theorem take (h : Collects table start snapshot met (name :: rest)) (htidy : table.Tidy) :
    let next := Collection.meetAll ⟨snapshot, met, rest⟩ name (table.below name)
    Collects table start next.snapshot next.met next.pending := by
  intro next
  have hmet : name ∈ met := h.pending_subset name List.mem_cons_self
  obtain ⟨hleft, hrest⟩ := List.nodup_cons.1 h.nodup
  -- The row of the name is empty so far, so all of its edges are added, in their order.
  have hbelow : snapshot.table.below name = [] := by
    rw [below, Std.TreeMap.getD_eq_getD_getElem?, h.row_eq,
      if_neg fun hdone => hdone.2 List.mem_cons_self]
    rfl
  have hnodup : (snapshot.table.below name ++ table.below name).Nodup := by
    rw [hbelow]
    exact htidy.nodup name
  simp only [next, Collection.meetAll_eq, table_foldl_add]
  refine ⟨h.root_eq, Search.mem_discover_append.2 (Or.inr h.start_mem), ?_, ?_, ?_, ?_, ?_⟩
  · refine List.Nodup.append hrest (Search.nodup_discover _ _) fun other hother hnew => ?_
    exact (Search.mem_discover.1 hnew).2 (h.pending_subset other (List.mem_cons_of_mem _ hother))
  · intro other hother
    rcases List.mem_append.1 hother with hother | hother
    · exact Search.mem_discover_append.2
        (Or.inr (h.pending_subset other (List.mem_cons_of_mem _ hother)))
    · exact Search.mem_discover_append.2 (Or.inl (Search.mem_discover.1 hother).1)
  · intro other hother
    rcases Search.mem_discover_append.1 hother with hother | hother
    · exact (h.sound name hmet).tail hother
    · exact h.sound other hother
  · intro other
    have hdone : (other ∈ (Search.discover met (table.below name)).reverse ++ met ∧
        other ∉ rest ++ Search.discover met (table.below name)) ↔ other ∈ met ∧ other ∉ rest := by
      rw [Search.mem_discover_append, List.mem_append, Search.mem_discover]
      tauto
    rw [getElem?_foldl_add hnodup, hbelow, List.nil_append, h.row_eq other]
    simp only [hdone, List.mem_cons]
    by_cases hother : other = name
    · subst hother
      simp [hmet, hleft, htidy.getElem?_eq other]
    · simp [hother]
  · intro other hother hpending sub hsub
    simp only [List.mem_append, Search.mem_discover, not_or] at hpending
    by_cases hname : other = name
    · rw [hname] at hsub
      exact Search.mem_discover_append.2 (Or.inl hsub)
    · have hknown : other ∈ met := by
        rcases Search.mem_discover_append.1 hother with hother | hother
        · by_contra hknown
          exact hpending.2 ⟨hother, hknown⟩
        · exact hother
      have hdone : other ∉ name :: rest := fun hmem =>
        hpending.1 ((List.mem_cons.1 hmem).resolve_left hname)
      exact Search.mem_discover_append.2 (Or.inr (h.expanded other hknown hdone sub hsub))

/-- Once nothing is pending, the names that were met are those that can be reached. -/
theorem mem_met_iff (h : Collects table start snapshot met []) (name : String) :
    name ∈ met ↔ table.Reaches start name := by
  refine ⟨h.sound name, fun hreaches => ?_⟩
  induction hreaches with
  | refl => exact h.start_mem
  | tail _ hsub ih => exact h.expanded _ ih List.not_mem_nil _ hsub

/-- Collecting goes on until nothing is pending. -/
theorem collect (h : Collects table start snapshot met pending) (htidy : table.Tidy) :
    ∃ all, Collects table start (table.collect snapshot met pending) all [] := by
  fun_induction SubtypeTable.collect table snapshot met pending with
  | case1 snapshot met => exact ⟨met, h⟩
  | case2 snapshot met name rest hrow ih =>
    refine ih ?_
    have hnext := h.take htidy
    have hbelow : table.below name = [] := by
      rw [below, Std.TreeMap.getD_eq_getD_getElem?, hrow]
      rfl
    rw [hbelow] at hnext
    exact hnext
  | case3 snapshot met name rest subs hrow next ih =>
    refine ih ?_
    have hbelow : table.below name = subs := by
      rw [below, Std.TreeMap.getD_eq_getD_getElem?, hrow]
      rfl
    have hnext := h.take htidy
    rwa [hbelow] at hnext

end Collects

/-- What is collected from a name has the name as its root, and its table is the part of the table
that can be reached from the name. -/
theorem collect_equiv_restrict (h : table.Tidy) (name : String) :
    (table.collect { root := name } [name] [name]).root = name ∧
      (table.collect { root := name } [name] [name]).table.entries.Equiv
        (table.restrict name).entries := by
  obtain ⟨met, hcollects⟩ := (collects_start table name).collect h
  refine ⟨hcollects.root_eq, Std.TreeMap.Equiv.of_forall_constGet?_eq fun other => ?_⟩
  rw [hcollects.row_eq, restrict, Std.TreeMap.getElem?_filter']
  cases hrow : table.entries[other]? with
  | none => simp
  | some subs =>
    have hother : other ∈ table.entries := by
      rw [Std.TreeMap.mem_iff_isSome_getElem?, hrow]
      rfl
    have hreached : other ∈ table.supertypesFrom name ↔ other ∈ met :=
      (mem_supertypesFrom hother).trans (hcollects.mem_met_iff other).symm
    simp [Option.filter, hreached]

end NominalSubtyping.SubtypeTable
