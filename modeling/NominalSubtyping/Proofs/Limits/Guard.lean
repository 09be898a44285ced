import NominalSubtyping.Limits.Guard
import NominalSubtyping.Proofs.Action

/-!
# What a guard answers

An attempt to visit a key is granted when no limit refuses it and the key is not being visited; the
key is then the newest one being visited. A refused attempt leaves the visited keys and the depth as
they were. Ending the newest visit undoes the attempt that began it, up to the number of attempts.

## Main results

* `Guard.enter_answer` : which answer an attempt gets.
* `Guard.enter_entered`, `Guard.enter_cycle`, `Guard.enter_exceeded` : what each answer says about
  the guard and does to it.
* `Guard.release_of_mem`, `Guard.release_of_not_mem` : what the end of a visit does to the guard.
* `Guard.leave_newest` : the end of the newest visit.
-/

namespace NominalSubtyping.Guard

variable {κ : Type} [DecidableEq κ] {guard after : Guard κ} {key : κ}

/-- The number of attempts after one more. -/
def nextIterations (guard : Guard κ) : Nat :=
  min (guard.iterations + 1) iterationCap

omit [DecidableEq κ] in
theorem nextIterations_le (guard : Guard κ) : guard.nextIterations ≤ guard.iterations + 1 :=
  Nat.min_le_left _ _

/-- The reasons for a refusal come one after the other. -/
theorem enter_answer (guard : Guard κ) (key : κ) :
    (guard.enter key).1 =
      if guard.limits.maxIterations < guard.nextIterations then .iterationExceeded
      else if guard.limits.maxDepth ≤ guard.depth then .depthExceeded
      else if key ∈ guard.visiting then .cycle
      else .entered := by
  rw [enter]
  simp only [apply_ite Prod.fst]
  rfl

theorem enter_entered (h : guard.enter key = (.entered, after)) :
    key ∉ guard.visiting ∧ after =
      { guard with
        iterations := guard.nextIterations
        visiting := key :: guard.visiting
        depth := guard.depth + 1 } := by
  rw [enter] at h
  split at h
  · cases h
  · split at h
    · cases h
    · split at h
      · cases h
      · rename_i hkey
        exact ⟨hkey, (Prod.mk.inj h).2.symm⟩

/-- The limit is the greatest depth. -/
theorem depth_le_of_enter (h : guard.enter key = (.entered, after)) :
    after.depth ≤ guard.limits.maxDepth := by
  rw [enter] at h
  split at h
  · cases h
  · split at h
    · cases h
    · rename_i hfree
      split at h
      · cases h
      · obtain rfl := (Prod.mk.inj h).2
        exact Nat.lt_of_not_le hfree

theorem enter_cycle (h : guard.enter key = (.cycle, after)) :
    key ∈ guard.visiting ∧ after = { guard with iterations := guard.nextIterations } := by
  rw [enter] at h
  split at h
  · cases h
  · split at h
    · cases h
    · split at h
      · rename_i hkey
        exact ⟨hkey, (Prod.mk.inj h).2.symm⟩
      · cases h

theorem enter_exceeded {entry : Entry} (h : guard.enter key = (entry, after))
    (hex : entry.isExceeded = true) :
    (guard.limits.maxIterations < guard.nextIterations ∨ guard.limits.maxDepth ≤ guard.depth) ∧
      after = { guard with iterations := guard.nextIterations, exceeded := true } := by
  rw [enter] at h
  split at h
  · rename_i hlimit
    exact ⟨Or.inl hlimit, (Prod.mk.inj h).2.symm⟩
  · split at h
    · rename_i hlimit
      exact ⟨Or.inr hlimit, (Prod.mk.inj h).2.symm⟩
    · split at h
      · rw [← (Prod.mk.inj h).1] at hex
        cases hex
      · rw [← (Prod.mk.inj h).1] at hex
        cases hex

/-- A guard whose depth limit is reached refuses by a limit. -/
theorem enter_of_depth_le (guard : Guard κ) (key : κ) (h : guard.limits.maxDepth ≤ guard.depth) :
    ∃ entry after, guard.enter key = (entry, after) ∧ entry.isExceeded = true := by
  rw [enter]
  split
  · exact ⟨_, _, rfl, rfl⟩
  · exact ⟨_, _, rfl, rfl⟩

/-- A visit that is under way ends. -/
theorem release_of_mem (h : key ∈ guard.visiting) : release key guard =
    .ok ⟨⟩ { guard with visiting := guard.visiting.erase key, depth := guard.depth - 1 } := by
  refine (bind_eq_of_ok rfl).trans ?_
  rw [decide_eq_true h]
  rfl

/-- A visit that is not under way cannot end, and the attempt to end it leaves no trace. -/
theorem release_of_not_mem (h : key ∉ guard.visiting) :
    release key guard = .error .notVisiting guard := by
  refine (bind_eq_of_ok rfl).trans ?_
  rw [decide_eq_false h, List.erase_of_not_mem h]
  rfl

/-- A visit ends if it is under way, and nothing but the visited keys and the depth is changed. -/
theorem leave_eq_ok_iff : guard.leave key = .ok after ↔ key ∈ guard.visiting ∧
    after = { guard with visiting := guard.visiting.erase key, depth := guard.depth - 1 } := by
  rw [leave]
  by_cases h : key ∈ guard.visiting
  · rw [release_of_mem h]
    exact ⟨fun heq => ⟨h, (Except.ok.inj heq).symm⟩, fun heq => congrArg Except.ok heq.2.symm⟩
  · rw [release_of_not_mem h]
    exact iff_of_false (fun heq => by cases heq) fun hmem => h hmem.1

theorem release_of_leave (h : guard.leave key = .ok after) : release key guard = .ok ⟨⟩ after := by
  obtain ⟨hmem, rfl⟩ := leave_eq_ok_iff.1 h
  exact release_of_mem hmem

/-- A visit ends if it is under way. -/
theorem exists_leave_ok_iff (guard : Guard κ) (key : κ) :
    (∃ later, guard.leave key = .ok later) ↔ key ∈ guard.visiting := by
  simp only [leave_eq_ok_iff, exists_and_left, exists_eq, and_true]

/-- The end of a visit changes nothing but the visited keys and the depth. -/
theorem leave_ok (h : guard.leave key = .ok after) :
    after = { guard with visiting := guard.visiting.erase key, depth := guard.depth - 1 } :=
  (leave_eq_ok_iff.1 h).2

/-- The end of the newest visit. -/
theorem leave_newest {keys : List κ} (h : guard.visiting = key :: keys) :
    guard.leave key = .ok { guard with visiting := keys, depth := guard.depth - 1 } := by
  refine leave_eq_ok_iff.2 ⟨h ▸ List.mem_cons_self, ?_⟩
  rw [h, List.erase_cons_head]

omit [DecidableEq κ] in
/-- To give a guard up is a fault while a key is being visited. -/
theorem exists_close_error_iff (guard : Guard κ) :
    (∃ fault, guard.close = .error fault) ↔ ∃ key, key ∈ guard.visiting := by
  rw [close]
  cases guard.visiting with
  | nil =>
    constructor
    · rintro ⟨fault, h⟩
      cases h
    · rintro ⟨key, h⟩
      cases h
  | cons key keys => exact iff_of_true ⟨_, rfl⟩ ⟨key, List.mem_cons_self⟩

end NominalSubtyping.Guard
