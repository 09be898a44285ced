import Mathlib.Data.List.Nodup
import Mathlib.Logic.Relation
import NominalSubtyping.Search

/-!
# What a search finds

A search of a finite graph is exact. If it is exhausted, it has listed what can be reached from its
starting item, each item once; if it ends at a goal, an edge leads there from an item that can be
reached; and if it gets stuck, it does so at an item that can be reached and is not part of the
graph. The order of the search plays no role.

The argument is the usual one about a *frontier*: everything reached can be reached, and whatever is
reached and no longer pending has all its neighbours among the reached items.

## Main definitions

* `Search.Graph.Edge` : the edges of a graph to search.
* `Search.Frontier` : the invariant of a search.
* `Search.Outcome.Exact` : what each outcome of a search says about reachability.

## Main results

* `Search.exploreFrom_exact` : the outcome of a search is exact.
-/

open Relation (ReflTransGen)

namespace NominalSubtyping.Search

variable {α : Type}

/-- An edge leads from `x` to `y`. -/
def Graph.Edge (graph : Graph α) (x y : α) : Prop :=
  ∃ ys, graph.neighbours x = some ys ∧ y ∈ ys

/-- The state of a search from `start`: what has been reached, and what of it is pending. -/
structure Frontier (graph : Graph α) (isGoal : α → Bool) (start : α) (reached pending : List α) :
    Prop where
  nodup : reached.Nodup
  start_mem : start ∈ reached
  pending_subset : ∀ x ∈ pending, x ∈ reached
  sound : ∀ x ∈ reached, ReflTransGen graph.Edge start x
  expanded : ∀ x ∈ reached, x ∉ pending →
    ∃ ys, graph.neighbours x = some ys ∧ ∀ y ∈ ys, y ∈ reached ∧ isGoal y = false

theorem frontier_start (graph : Graph α) (isGoal : α → Bool) (start : α) :
    Frontier graph isGoal start [start] [start] where
  nodup := List.nodup_singleton start
  start_mem := List.mem_singleton_self start
  pending_subset _ hx := hx
  sound x hx := by
    rw [List.mem_singleton.1 hx]
  expanded x hx hp := absurd hx hp

theorem mem_schedule {order : Order} {fresh pending : List α} {x : α} :
    x ∈ order.schedule fresh pending ↔ x ∈ fresh ∨ x ∈ pending := by
  cases order
  · simp [Order.schedule]
  · simp [Order.schedule, or_comm]

variable [DecidableEq α]

theorem nodup_discover (reached xs : List α) : (discover reached xs).Nodup := by
  induction xs generalizing reached with
  | nil => exact List.nodup_nil
  | cons x xs ih =>
    rw [discover]
    split
    · exact ih reached
    · refine List.nodup_cons.2 ⟨fun hx => ?_, ih (x :: reached)⟩
      exact (mem_discover.1 hx).2 List.mem_cons_self

/-- What a list discovers joins what was reached. -/
theorem mem_discover_append {reached xs : List α} {y : α} :
    y ∈ (discover reached xs).reverse ++ reached ↔ y ∈ xs ∨ y ∈ reached := by
  rw [List.mem_append, List.mem_reverse, mem_discover]
  by_cases hy : y ∈ reached <;> simp [hy]

namespace Frontier

variable {graph : Graph α} {isGoal : α → Bool} {start x : α} {reached rest ys : List α}

/-- Taking up a pending item whose neighbours hold no goal keeps the invariant. -/
theorem take (h : Frontier graph isGoal start reached (x :: rest))
    (hx : graph.neighbours x = some ys) (hgoal : ys.any isGoal = false) (order : Order) :
    Frontier graph isGoal start ((discover reached ys).reverse ++ reached)
      (order.schedule (discover reached ys) rest) := by
  have hreached : ReflTransGen graph.Edge start x :=
    h.sound x (h.pending_subset x List.mem_cons_self)
  refine ⟨?_, mem_discover_append.2 (Or.inr h.start_mem), ?_, ?_, ?_⟩
  · refine List.Nodup.append (List.nodup_reverse.2 (nodup_discover reached ys)) h.nodup ?_
    intro y hy
    exact (mem_discover.1 (List.mem_reverse.1 hy)).2
  · intro y hy
    rcases mem_schedule.1 hy with hy | hy
    · exact mem_discover_append.2 (Or.inl (mem_discover.1 hy).1)
    · exact mem_discover_append.2 (Or.inr (h.pending_subset y (List.mem_cons_of_mem x hy)))
  · intro y hy
    rcases mem_discover_append.1 hy with hy | hy
    · exact hreached.tail ⟨ys, hx, hy⟩
    · exact h.sound y hy
  · intro y hy hp
    by_cases hyx : y = x
    · subst hyx
      refine ⟨ys, hx, fun z hz => ⟨mem_discover_append.2 (Or.inl hz), ?_⟩⟩
      simpa using List.any_eq_false.1 hgoal z hz
    · -- An item that is not pending now was not discovered now, so it was expanded before.
      have hyr : y ∈ reached := by
        rcases List.mem_append.1 hy with hy | hy
        · exact absurd (mem_schedule.2 (Or.inl (List.mem_reverse.1 hy))) hp
        · exact hy
      have hyp : y ∉ x :: rest := fun hmem' =>
        hp (mem_schedule.2 (Or.inr ((List.mem_cons.1 hmem').resolve_left hyx)))
      obtain ⟨zs, hzs, hall⟩ := h.expanded y hyr hyp
      exact ⟨zs, hzs, fun z hz => ⟨mem_discover_append.2 (Or.inr (hall z hz).1), (hall z hz).2⟩⟩

omit [DecidableEq α] in
/-- Once nothing is pending, the reached items are those that can be reached. -/
theorem mem_iff (h : Frontier graph isGoal start reached []) (y : α) :
    y ∈ reached ↔ ReflTransGen graph.Edge start y := by
  refine ⟨h.sound y, fun hy => ?_⟩
  induction hy with
  | refl => exact h.start_mem
  | tail _ hedge ih =>
    obtain ⟨ys, hys, hmem⟩ := hedge
    obtain ⟨zs, hzs, hall⟩ := h.expanded _ ih List.not_mem_nil
    obtain rfl := Option.some.inj (hys.symm.trans hzs)
    exact (hall _ hmem).1

end Frontier

/-- What the outcome of a search from `start` says about reachability. -/
def Outcome.Exact (graph : Graph α) (isGoal : α → Bool) (start : α) : Outcome α → Prop
  | found => ∃ x y, ReflTransGen graph.Edge start x ∧ graph.Edge x y ∧ isGoal y = true
  | stuck x => ReflTransGen graph.Edge start x ∧ graph.neighbours x = none
  | exhausted reached =>
    reached.Nodup ∧ (∀ y, y ∈ reached ↔ ReflTransGen graph.Edge start y) ∧
      ∀ x y, ReflTransGen graph.Edge start x → graph.Edge x y → isGoal y = false

theorem explore_exact {graph : Graph α} {order : Order} {isGoal : α → Bool} {start : α}
    {reached pending : List α} (h : Frontier graph isGoal start reached pending) :
    (explore graph order isGoal reached pending).Exact graph isGoal start := by
  fun_induction explore graph order isGoal reached pending with
  | case1 reached =>
    refine ⟨List.nodup_reverse.2 h.nodup, fun y => ?_, ?_⟩
    · rw [List.mem_reverse, h.mem_iff]
    · rintro x y hx ⟨ys, hys, hy⟩
      obtain ⟨zs, hzs, hall⟩ := h.expanded x ((h.mem_iff x).2 hx) List.not_mem_nil
      obtain rfl := Option.some.inj (hys.symm.trans hzs)
      exact (hall y hy).2
  | case2 reached x rest hx =>
    exact ⟨h.sound x (h.pending_subset x List.mem_cons_self), hx⟩
  | case3 reached x rest ys hx hgoal =>
    obtain ⟨y, hy, hgoal⟩ := List.any_eq_true.1 hgoal
    exact ⟨x, y, h.sound x (h.pending_subset x List.mem_cons_self), ⟨ys, hx, hy⟩, hgoal⟩
  | case4 reached x rest ys hx hgoal ih =>
    exact ih (h.take hx (Bool.eq_false_iff.2 hgoal) order)

theorem exploreFrom_exact (graph : Graph α) (order : Order) (isGoal : α → Bool) (start : α) :
    (exploreFrom graph order isGoal start).Exact graph isGoal start :=
  explore_exact (frontier_start graph isGoal start)

end NominalSubtyping.Search
