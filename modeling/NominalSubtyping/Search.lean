/-!
# Searching a finite graph

A *search* follows edges from a list of starting items. It keeps the items reached so far and,
among them, the pending ones, whose edges are still to be followed. The order in which pending items
are taken is that of a stack or that of a queue. A search ends when an edge leads to a goal, when it
takes a pending item that is not part of the graph, or when nothing is pending.

The graph is finite: every item that has edges is in a list. Each round of the search takes one
pending item, and whatever it adds to the pending items had not been reached before; hence the
number of items of the graph that are pending or not yet reached goes down in every round.

## Main definitions

* `Search.Graph` : a finite graph, given by the neighbours of its items.
* `Search.explore` : the search itself.
* `Search.Outcome` : the three ways in which it ends.
-/

namespace NominalSubtyping

namespace Search

/-- A finite graph: `neighbours x` is `none` when `x` is not part of it. -/
structure Graph (α : Type) where
  neighbours : α → Option (List α)
  items : List α
  mem_items : ∀ x ys, neighbours x = some ys → x ∈ items

/-- The order in which pending items are taken. -/
inductive Order where
  /-- The newest first. -/
  | stack
  /-- The oldest first. -/
  | queue
  deriving DecidableEq, Repr

/-- How a search ends. -/
inductive Outcome (α : Type) where
  /-- An edge leads to a goal. -/
  | found
  /-- A pending item is not part of the graph. -/
  | stuck (item : α)
  /-- Nothing is pending; `reached` lists what was reached, in order of discovery. -/
  | exhausted (reached : List α)
  deriving DecidableEq, Repr

variable {α : Type}

/-- The pending items after `fresh` joined `pending`. -/
def Order.schedule (order : Order) (fresh pending : List α) : List α :=
  match order with
  | stack => fresh.reverse ++ pending
  | queue => pending ++ fresh

variable [DecidableEq α]

/-- The items of a list that are not in `reached`, each once and in order. -/
def discover (reached : List α) : List α → List α
  | [] => []
  | x :: xs => if x ∈ reached then discover reached xs else x :: discover (x :: reached) xs

theorem mem_discover {reached xs : List α} {y : α} :
    y ∈ discover reached xs ↔ y ∈ xs ∧ y ∉ reached := by
  induction xs generalizing reached with
  | nil => simp [discover]
  | cons x xs ih =>
    rw [discover]
    split
    · rename_i hx
      rw [ih, List.mem_cons]
      constructor
      · exact fun h => ⟨Or.inr h.1, h.2⟩
      · rintro ⟨rfl | h, hr⟩
        · exact absurd hx hr
        · exact ⟨h, hr⟩
    · rename_i hx
      rw [List.mem_cons, ih, List.mem_cons, List.mem_cons]
      constructor
      · rintro (rfl | ⟨h, hr⟩)
        · exact ⟨Or.inl rfl, hx⟩
        · exact ⟨Or.inr h, fun hy => hr (Or.inr hy)⟩
      · rintro ⟨h, hr⟩
        by_cases hy : y = x
        · exact Or.inl hy
        · exact Or.inr ⟨h.resolve_left hy, not_or.2 ⟨hy, hr⟩⟩

/-- The number of items of a list that are not in `reached`. -/
def unreached (items reached : List α) : Nat :=
  items.countP fun x => x ∉ reached

theorem unreached_cons (x : α) (items reached : List α) :
    unreached (x :: items) reached = unreached items reached + if x ∈ reached then 0 else 1 := by
  by_cases h : x ∈ reached <;> simp [unreached, h]

private theorem unreached_reach_le (items reached : List α) (x : α) :
    unreached items (x :: reached) ≤ unreached items reached :=
  List.countP_mono_left fun y _ h => by
    simp only [List.mem_cons, not_or, decide_eq_true_eq] at h ⊢
    exact h.2

private theorem unreached_reach_lt {items reached : List α} {x : α} (hx : x ∈ items)
    (hr : x ∉ reached) : unreached items (x :: reached) < unreached items reached := by
  induction items with
  | nil => cases hx
  | cons y ys ih =>
    rw [unreached_cons, unreached_cons]
    by_cases hy : y = x
    · have := unreached_reach_le ys reached x
      simp only [hy, List.mem_cons, true_or, if_true, hr, if_false]
      omega
    · have := ih ((List.mem_cons.1 hx).resolve_left (Ne.symm hy))
      simp only [List.mem_cons, hy, false_or]
      omega

/-- What a list discovers no longer counts as unreached. -/
theorem unreached_discover_le (items : List α) (xs reached : List α) :
    unreached items ((discover reached xs).reverse ++ reached) +
      (discover reached xs).countP (· ∈ items) ≤ unreached items reached := by
  induction xs generalizing reached with
  | nil => simp [discover]
  | cons x xs ih =>
    rw [discover]
    split
    · exact ih reached
    · rename_i hr
      have := ih (x :: reached)
      rw [List.reverse_cons, List.append_assoc, List.singleton_append, List.countP_cons]
      by_cases hx : x ∈ items
      · have := unreached_reach_lt hx hr
        simp only [hx, decide_true, if_true]
        omega
      · have := unreached_reach_le items reached x
        simp only [hx, decide_false]
        simp only [Bool.false_eq_true, if_false]
        omega

omit [DecidableEq α] in
private theorem countP_schedule (order : Order) (p : α → Bool) (fresh pending : List α) :
    (order.schedule fresh pending).countP p = fresh.countP p + pending.countP p := by
  cases order <;> simp [Order.schedule, Nat.add_comm]

/-- Follows edges from the `pending` items. The items `reached` so far, the newest first, include
the pending ones. -/
def explore (graph : Graph α) (order : Order) (isGoal : α → Bool) (reached pending : List α) :
    Outcome α :=
  match pending with
  | [] => .exhausted reached.reverse
  | x :: rest =>
    match _next : graph.neighbours x with
    | none => .stuck x
    | some ys =>
      if ys.any isGoal then
        .found
      else
        explore graph order isGoal ((discover reached ys).reverse ++ reached)
          (order.schedule (discover reached ys) rest)
termination_by unreached graph.items reached + pending.countP (· ∈ graph.items)
decreasing_by
  have hx := graph.mem_items x ys _next
  have := unreached_discover_le graph.items ys reached
  simp only [countP_schedule, List.countP_cons, hx, decide_true, if_true]
  omega

/-- Follows edges from one item. -/
def exploreFrom (graph : Graph α) (order : Order) (isGoal : α → Bool) (start : α) : Outcome α :=
  explore graph order isGoal [start] [start]

end Search

end NominalSubtyping
