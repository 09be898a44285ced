import Mathlib.Data.Set.Card
import NominalSubtyping.Proofs.Limits.Guard

/-!
# A guard and its history

Calls of a guard come in any order, also in one that makes no sense: a key may be entered twice, and
a key may be left that is not being visited. The *history* of a guard tells what became of its
calls, the oldest first: an attempt with its answer, and the end of a visit, which may have failed.
A visit around a computation is an attempt and, if it is granted, the end of the visit. A failed
call does not end the history; the guard goes on from the state in which the call left it.

In a history a key is *open* if the end of a visit has not followed its last granted attempt. The
history alone determines the guard: the keys being visited are the open ones, the depth is their
number, and the attempts that were made and refused can be counted in it.

## Main definitions

* `Guard.Call`, `Guard.Occurrence` : a call, and what becomes of one.
* `Guard.call`, `Guard.trace` : makes one call, or several one after the other.
* `Guard.Open` : a key is open in a history.
* `Guard.Reflects` : a guard is as its history determines it.

## Main results

* `Guard.Reflects.call` : a call keeps the guard as its history determines it.
* `Guard.refines_history` : what can be told of a guard from its history.
-/

namespace NominalSubtyping.Guard

/-- A call of a guard with keys `κ`; visits surround computations of values `α`. -/
inductive Call (κ α : Type) where
  | enter (key : κ)
  | leave (key : κ)
  | scope (key : κ) (body : Unit → α)

/-- What becomes of a call, or of a part of it. -/
inductive Occurrence (κ : Type) where
  /-- An attempt to visit a key was answered. -/
  | tried (key : κ) (answer : Entry)
  /-- The visit of a key was to end. -/
  | left (key : κ) (succeeded : Bool)
  deriving DecidableEq, Repr

variable {κ α : Type}

/-- Whether the call is an attempt to visit a key. -/
def Call.isAttempt : Call κ α → Bool
  | enter _ | scope _ _ => true
  | leave _ => false

namespace Occurrence

/-- Whether it is the answer to an attempt. -/
def isAttempt : Occurrence κ → Bool
  | tried _ _ => true
  | left _ _ => false

/-- Whether an attempt was refused by one of the limits. -/
def isExceeded : Occurrence κ → Bool
  | tried _ answer => answer.isExceeded
  | left _ _ => false

/-- Whether a visit begins or ends. -/
def takesEffect : Occurrence κ → Bool
  | tried _ answer => answer.isEntered
  | left _ succeeded => succeeded

end Occurrence

/-- The last granted attempt to visit `key` has not been followed by the end of a visit of it. -/
def Open (history : List (Occurrence κ)) (key : κ) : Prop :=
  ∃ before after, history = before ++ .tried key .entered :: after ∧
    .tried key .entered ∉ after ∧ .left key true ∉ after

/-! ### Open keys -/

section Histories

variable {history : List (Occurrence κ)} {occurrence : Occurrence κ} {key : κ}

theorem not_open_nil : ¬ Open [] key := by
  rintro ⟨before, after, heq, -⟩
  cases before <;> cases heq

/-- A key is open after one more occurrence if the occurrence opens it, or if it was open and the
occurrence does not close it. -/
theorem open_concat : Open (history ++ [occurrence]) key ↔
    occurrence = .tried key .entered ∨ occurrence ≠ .left key true ∧ Open history key := by
  constructor
  · rintro ⟨before, after, heq, htried, hleft⟩
    rcases List.eq_nil_or_concat after with rfl | ⟨rest, last, rfl⟩
    · exact Or.inl (List.singleton_inj.1 (List.append_inj' heq rfl).2)
    · rw [List.concat_eq_append, ← List.cons_append, ← List.append_assoc] at heq
      obtain ⟨hhistory, hlast⟩ := List.append_inj' heq rfl
      rw [List.singleton_inj.1 hlast]
      simp only [List.concat_eq_append, List.mem_append, List.mem_singleton, not_or] at htried hleft
      exact Or.inr ⟨Ne.symm hleft.2, before, rest, hhistory, htried.1, hleft.1⟩
  · by_cases hopens : occurrence = .tried key .entered
    · rw [hopens]
      exact fun _ => ⟨history, [], rfl, List.not_mem_nil, List.not_mem_nil⟩
    · rintro (h | ⟨hcloses, before, after, rfl, htried, hleft⟩)
      · exact absurd h hopens
      · refine ⟨before, after ++ [occurrence], by rw [List.append_assoc, List.cons_append], ?_, ?_⟩
        · simp [htried, Ne.symm hopens]
        · simp [hleft, Ne.symm hcloses]

theorem open_concat_entered {other : κ} :
    Open (history ++ [.tried other .entered]) key ↔ key = other ∨ Open history key := by
  rw [open_concat]
  simp [eq_comm]

theorem open_concat_left {other : κ} :
    Open (history ++ [.left other true]) key ↔ key ≠ other ∧ Open history key := by
  rw [open_concat]
  simp [eq_comm]

/-- What takes no effect opens and closes nothing. -/
theorem open_concat_idle (h : occurrence.takesEffect = false) :
    Open (history ++ [occurrence]) key ↔ Open history key := by
  rw [open_concat]
  have hopens : occurrence ≠ .tried key .entered := fun heq => by
    rw [heq] at h
    cases h
  have hcloses : occurrence ≠ .left key true := fun heq => by
    rw [heq] at h
    cases h
  simp [hopens, hcloses]

theorem open_append_idle {happened : List (Occurrence κ)}
    (h : ∀ occurrence ∈ happened, occurrence.takesEffect = false) :
    Open (history ++ happened) key ↔ Open history key := by
  induction happened generalizing history with
  | nil => rw [List.append_nil]
  | cons occurrence happened ih =>
    rw [List.append_cons, ih fun other hother => h other (List.mem_cons_of_mem _ hother)]
    exact open_concat_idle (h occurrence List.mem_cons_self)

end Histories

/-! ### What a history determines -/

/-- The guard is as its history determines it. -/
structure Reflects (limits : Limits) (history : List (Occurrence κ)) (guard : Guard κ) : Prop where
  limits_eq : guard.limits = limits
  mem_visiting : ∀ key, key ∈ guard.visiting ↔ Open history key
  nodup : guard.visiting.Nodup
  depth_eq : guard.depth = guard.visiting.length
  depth_le : guard.depth ≤ limits.maxDepth
  iterations_eq : guard.iterations = min (history.countP Occurrence.isAttempt) iterationCap
  exceeded_iff : guard.exceeded = true ↔ ∃ occurrence ∈ history, occurrence.isExceeded = true

/-- Nothing is known of a new guard but its limits. -/
theorem reflects_new (limits : Limits) : Reflects limits [] ({ limits } : Guard κ) where
  limits_eq := rfl
  mem_visiting key := iff_of_false List.not_mem_nil not_open_nil
  nodup := List.nodup_nil
  depth_eq := rfl
  depth_le := Nat.zero_le _
  iterations_eq := rfl
  exceeded_iff := by simp

namespace Reflects

variable {limits : Limits} {history : List (Occurrence κ)} {guard : Guard κ}

/-- The next attempt is counted. -/
theorem nextIterations_eq (h : Reflects limits history guard) (key : κ) (answer : Entry) :
    guard.nextIterations =
      min ((history ++ [Occurrence.tried key answer]).countP Occurrence.isAttempt)
        iterationCap := by
  rw [nextIterations, h.iterations_eq, List.countP_append]
  simp only [List.countP_singleton, Occurrence.isAttempt, if_true]
  omega

theorem exceeded_concat_iff (h : Reflects limits history guard) (occurrence : Occurrence κ) :
    (∃ other ∈ history ++ [occurrence], other.isExceeded = true) ↔
      guard.exceeded = true ∨ occurrence.isExceeded = true := by
  rw [h.exceeded_iff]
  simp [or_and_right, exists_or]

/-- A visit that was to end and did not. -/
theorem leave_failed (h : Reflects limits history guard) (key : κ) :
    Reflects limits (history ++ [.left key false]) guard := by
  refine ⟨h.limits_eq, fun other => ?_, h.nodup, h.depth_eq, h.depth_le, ?_, ?_⟩
  · rw [open_concat_idle rfl, h.mem_visiting]
  · rw [List.countP_append]
    exact h.iterations_eq
  · rw [h.exceeded_concat_iff]
    exact (or_iff_left Bool.false_ne_true).symm

/-- The depth is the number of open keys. -/
theorem encard_open (h : Reflects limits history guard) :
    {key | Open history key}.encard = guard.depth := by
  classical
  have hkeys : {key | Open history key} = ↑guard.visiting.toFinset := by
    ext key
    simp [h.mem_visiting]
  rw [hkeys, Set.encard_coe_eq_coe_finsetCard, List.toFinset_card_of_nodup h.nodup, h.depth_eq]

end Reflects

/-! ### Calls -/

variable [DecidableEq κ]

/-- Makes one call: what becomes of it, and the guard afterwards. A call that fails leaves the guard
as it was when it failed. -/
def call (guard : Guard κ) : Call κ α → List (Occurrence κ) × Guard κ
  | .enter key => ([.tried key (guard.enter key).1], (guard.enter key).2)
  | .leave key =>
    match release key guard with
    | .ok _ later => ([.left key true], later)
    | .error _ later => ([.left key false], later)
  | .scope key body =>
    match visit key body guard with
    | .ok (.ok _) later => ([.tried key .entered, .left key true], later)
    | .ok (.error refusal) later => ([.tried key refusal], later)
    | .error _ later => ([.tried key .entered, .left key false], later)

/-- Makes calls one after the other: the history of the guard, and the guard afterwards. -/
def trace (guard : Guard κ) : List (Call κ α) → List (Occurrence κ) × Guard κ
  | [] => ([], guard)
  | call :: calls =>
    ((guard.call call).1 ++ ((guard.call call).2.trace calls).1,
     ((guard.call call).2.trace calls).2)

/-- A granted visit around a computation ends as soon as the computation has. -/
theorem visit_of_entered {guard inner : Guard κ} {key : κ} (h : guard.enter key = (.entered, inner))
    (body : Unit → α) : ∃ later, inner.leave key = .ok later ∧
      visit key body guard = .ok (.ok (body ())) later := by
  have hvisiting : inner.visiting = key :: guard.visiting := by
    rw [(enter_entered h).2]
  have hleave := leave_newest hvisiting
  have henter : (modifyGet (·.enter key) : GuardM κ Entry) guard = .ok .entered inner := by
    change EStateM.Result.ok (guard.enter key).1 (guard.enter key).2 = _
    rw [h]
  exact ⟨_, hleave, (bind_eq_of_ok henter).trans (bind_eq_of_ok (release_of_leave hleave))⟩

/-- A refused visit leaves the computation alone. -/
theorem visit_of_refused {guard later : Guard κ} {key : κ} {refusal : Entry}
    (h : guard.enter key = (refusal, later)) (hrefused : refusal ≠ .entered) (body : Unit → α) :
    visit key body guard = .ok (.error refusal) later := by
  have henter : (modifyGet (·.enter key) : GuardM κ Entry) guard = .ok refusal later := by
    change EStateM.Result.ok (guard.enter key).1 (guard.enter key).2 = _
    rw [h]
  refine (bind_eq_of_ok henter).trans ?_
  cases refusal with
  | entered => exact absurd rfl hrefused
  | cycle | depthExceeded | iterationExceeded => rfl

/-- A call is answered as an attempt, ends a visit, fails to do so, or is a whole visit. -/
theorem call_cases (guard : Guard κ) (made : Call κ α) :
    (made.isAttempt = true ∧ ∃ key,
        guard.call made = ([.tried key (guard.enter key).1], (guard.enter key).2)) ∨
      (made.isAttempt = false ∧ ∃ key later,
        guard.leave key = .ok later ∧ guard.call made = ([.left key true], later)) ∨
      (made.isAttempt = false ∧ ∃ key, guard.call made = ([.left key false], guard)) ∨
      made.isAttempt = true ∧ ∃ key inner later, guard.enter key = (.entered, inner) ∧
        inner.leave key = .ok later ∧
        guard.call made = ([.tried key .entered, .left key true], later) := by
  cases made with
  | enter key => exact Or.inl ⟨rfl, key, rfl⟩
  | leave key =>
    rw [call]
    by_cases hkey : key ∈ guard.visiting
    · obtain ⟨later, hleave⟩ := (guard.exists_leave_ok_iff key).2 hkey
      rw [release_of_leave hleave]
      exact Or.inr (Or.inl ⟨rfl, key, later, hleave, rfl⟩)
    · rw [release_of_not_mem hkey]
      exact Or.inr (Or.inr (Or.inl ⟨rfl, key, rfl⟩))
  | scope key body =>
    rw [call]
    by_cases hentered : (guard.enter key).1 = .entered
    · have henter : guard.enter key = (.entered, (guard.enter key).2) := Prod.ext hentered rfl
      obtain ⟨later, hleave, hvisit⟩ := visit_of_entered henter body
      rw [hvisit]
      exact Or.inr (Or.inr (Or.inr ⟨rfl, key, _, later, henter, hleave, rfl⟩))
    · rw [visit_of_refused rfl hentered body]
      exact Or.inl ⟨rfl, key, rfl⟩

namespace Reflects

variable {limits : Limits} {history : List (Occurrence κ)} {guard later : Guard κ} {key : κ}

/-- An attempt to visit a key. -/
theorem enter (h : Reflects limits history guard) (key : κ) :
    Reflects limits (history ++ [.tried key (guard.enter key).1]) (guard.enter key).2 := by
  rcases henter : guard.enter key with ⟨answer, later⟩
  have hiterations := h.nextIterations_eq key answer
  have hexceeded := h.exceeded_concat_iff (.tried key answer)
  cases answer with
  | entered =>
    have hdepth := depth_le_of_enter henter
    obtain ⟨hnew, rfl⟩ := enter_entered henter
    refine ⟨h.limits_eq, fun other => ?_, List.nodup_cons.2 ⟨hnew, h.nodup⟩, ?_,
      h.limits_eq ▸ hdepth, hiterations, ?_⟩
    · rw [List.mem_cons, open_concat_entered, h.mem_visiting]
    · rw [List.length_cons, ← h.depth_eq]
    · rw [hexceeded]
      exact (or_iff_left Bool.false_ne_true).symm
  | cycle =>
    obtain ⟨-, rfl⟩ := enter_cycle henter
    refine ⟨h.limits_eq, fun other => ?_, h.nodup, h.depth_eq, h.depth_le, hiterations, ?_⟩
    · rw [open_concat_idle rfl, h.mem_visiting]
    · rw [hexceeded]
      exact (or_iff_left Bool.false_ne_true).symm
  | depthExceeded | iterationExceeded =>
    obtain ⟨-, rfl⟩ := enter_exceeded henter rfl
    refine ⟨h.limits_eq, fun other => ?_, h.nodup, h.depth_eq, h.depth_le, hiterations, ?_⟩
    · rw [open_concat_idle rfl, h.mem_visiting]
    · rw [hexceeded]
      exact iff_of_true rfl (Or.inr rfl)

/-- The end of a visit. -/
theorem leave (h : Reflects limits history guard) (hleave : guard.leave key = .ok later) :
    Reflects limits (history ++ [.left key true]) later := by
  have hmem : key ∈ guard.visiting := (guard.exists_leave_ok_iff key).1 ⟨later, hleave⟩
  obtain rfl := leave_ok hleave
  refine ⟨h.limits_eq, fun other => ?_, h.nodup.erase key, ?_, ?_, ?_, ?_⟩
  · rw [h.nodup.mem_erase_iff, open_concat_left, h.mem_visiting]
  · rw [List.length_erase_of_mem hmem, ← h.depth_eq]
  · exact (Nat.sub_le _ _).trans h.depth_le
  · rw [List.countP_append]
    exact h.iterations_eq
  · rw [h.exceeded_concat_iff]
    exact (or_iff_left Bool.false_ne_true).symm

/-- A call keeps the guard as its history determines it. -/
theorem call (h : Reflects limits history guard) (made : Call κ α) :
    Reflects limits (history ++ (guard.call made).1) (guard.call made).2 := by
  rcases guard.call_cases made with ⟨-, key, hcall⟩ | ⟨-, key, later, hleave, hcall⟩ |
    ⟨-, key, hcall⟩ | ⟨-, key, inner, later, henter, hleave, hcall⟩
  · rw [hcall]
    exact h.enter key
  · rw [hcall]
    exact h.leave hleave
  · rw [hcall]
    exact h.leave_failed key
  · have hinner := h.enter key
    rw [henter] at hinner
    rw [hcall, List.append_cons]
    exact hinner.leave hleave

/-- So do calls one after the other. -/
theorem trace (calls : List (Call κ α)) : ∀ {history : List (Occurrence κ)} {guard : Guard κ},
    Reflects limits history guard →
    Reflects limits (history ++ (guard.trace calls).1) (guard.trace calls).2 := by
  induction calls with
  | nil =>
    intro history guard h
    rw [Guard.trace, List.append_nil]
    exact h
  | cons made calls ih =>
    intro history guard h
    rw [Guard.trace, ← List.append_assoc]
    exact ih (h.call made)

/-! ### What the history tells -/

/-- A call without effect leaves the keys being visited and the depth as they were. -/
theorem call_idle (h : Reflects limits history guard) (made : Call κ α)
    (hidle : ∀ occurrence ∈ (guard.call made).1, occurrence.takesEffect = false) :
    (∀ key, Open (history ++ (guard.call made).1) key ↔ Open history key) ∧
      (guard.call made).2.depth = guard.depth := by
  have hopen (key : κ) : Open (history ++ (guard.call made).1) key ↔ Open history key :=
    open_append_idle hidle
  have hlater := (h.call made).encard_open
  simp only [hopen, h.encard_open] at hlater
  exact ⟨hopen, (Nat.cast_inj.1 hlater).symm⟩

open Classical in
/-- The answer to the next attempt. -/
theorem enter_answer (h : Reflects limits history guard) (key : κ) :
    (guard.enter key).1 =
      if limits.maxIterations < iterationCap ∧
          limits.maxIterations < history.countP Occurrence.isAttempt + 1 then
        .iterationExceeded
      else if {key | Open history key}.encard = limits.maxDepth then .depthExceeded
      else if Open history key then .cycle
      else .entered := by
  have hattempts : limits.maxIterations < guard.nextIterations ↔
      limits.maxIterations < iterationCap ∧
        limits.maxIterations < history.countP Occurrence.isAttempt + 1 := by
    rw [nextIterations, h.iterations_eq]
    omega
  have hdepth : limits.maxDepth ≤ guard.depth ↔
      {key | Open history key}.encard = limits.maxDepth := by
    rw [h.encard_open, Nat.cast_inj]
    exact ⟨h.depth_le.antisymm, fun heq => heq.ge⟩
  rw [Guard.enter_answer, h.limits_eq]
  simp only [hattempts, hdepth, h.mem_visiting]

end Reflects

/-- A call is one attempt, or none. -/
theorem countP_isAttempt_call (guard : Guard κ) (made : Call κ α) :
    (guard.call made).1.countP Occurrence.isAttempt = made.isAttempt.toNat := by
  rcases guard.call_cases made with ⟨hmade, key, hcall⟩ | ⟨hmade, key, later, -, hcall⟩ |
    ⟨hmade, key, hcall⟩ | ⟨hmade, key, inner, later, -, -, hcall⟩
  all_goals
    rw [hcall, hmade]
    rfl

/-- The attempts in a history are the calls that are attempts. -/
theorem countP_isAttempt_trace (calls : List (Call κ α)) : ∀ guard : Guard κ,
    (guard.trace calls).1.countP Occurrence.isAttempt = calls.countP Call.isAttempt := by
  induction calls with
  | nil => exact fun _ => rfl
  | cons made calls ih =>
    intro guard
    rw [trace, List.countP_append, ih, countP_isAttempt_call, List.countP_cons, Nat.add_comm]
    cases made.isAttempt <;> rfl

open Classical in
/-- After any calls of a new guard, the keys being visited are the open ones, the depth is their
number and within its limit, every attempt has been counted up to the cap, and a limit has been
exceeded if one has refused an attempt. The next attempt is refused by the limit on attempts if it
is passed, otherwise by the limit on depth if as many keys are open, otherwise as a cycle if the key
is open, and otherwise granted; the end of a visit fails if the key is not open. A call that is
refused or fails leaves the open keys and the depth as they are, and giving the guard up is a fault
if a key is open. -/
theorem refines_history (limits : Limits) (calls : List (Call κ α)) :
    let history := (({ limits } : Guard κ).trace calls).1
    let guard := (({ limits } : Guard κ).trace calls).2
    let attempts := calls.countP Call.isAttempt
    (∀ key, guard.isVisiting key = true ↔ Open history key) ∧
      {key | Open history key}.encard = guard.depth ∧
      guard.depth ≤ limits.maxDepth ∧
      guard.iterations = min attempts iterationCap ∧
      (guard.exceeded = true ↔ ∃ occurrence ∈ history, occurrence.isExceeded = true) ∧
      (∀ key, (guard.enter key).1 =
        if limits.maxIterations < iterationCap ∧ limits.maxIterations < attempts + 1 then
          .iterationExceeded
        else if {key | Open history key}.encard = limits.maxDepth then .depthExceeded
        else if Open history key then .cycle
        else .entered) ∧
      (∀ key, (∃ later, guard.leave key = .ok later) ↔ Open history key) ∧
      (∀ made : Call κ α,
        (∀ occurrence ∈ (guard.call made).1, occurrence.takesEffect = false) →
          (∀ key, Open (history ++ (guard.call made).1) key ↔ Open history key) ∧
            (guard.call made).2.depth = guard.depth) ∧
      ((∃ fault, guard.close = .error fault) ↔ ∃ key, Open history key) := by
  intro history guard attempts
  have h : Reflects limits history guard := (reflects_new limits).trace calls
  have hattempts : history.countP Occurrence.isAttempt = attempts := countP_isAttempt_trace calls _
  rw [← hattempts]
  refine ⟨fun key => decide_eq_true_iff.trans (h.mem_visiting key), h.encard_open, h.depth_le,
    h.iterations_eq, h.exceeded_iff, h.enter_answer,
    fun key => (guard.exists_leave_ok_iff key).trans (h.mem_visiting key), h.call_idle, ?_⟩
  rw [guard.exists_close_error_iff]
  exact exists_congr h.mem_visiting

/-- A key that is entered twice, one that is left without a visit, and a visit refused by the
depth. -/
theorem refines_history_misused :
    let calls : List (Call Nat Unit) :=
      [.enter 1, .enter 1, .leave 2, .enter 2, .scope 3 fun _ => (), .leave 1]
    let history := (({ limits := ⟨2, 4⟩ } : Guard Nat).trace calls).1
    let guard := (({ limits := ⟨2, 4⟩ } : Guard Nat).trace calls).2
    Open history 2 ∧ ¬ Open history 1 ∧ guard.depth = 1 ∧ guard.iterations = 4 ∧
      guard.exceeded = true ∧ (guard.enter 1).1 = .iterationExceeded ∧
      ∃ fault, guard.close = .error fault := by
  intro calls history guard
  obtain ⟨hopen, -, -, hiterations, -, -, -, -, hclose⟩ := refines_history ⟨2, 4⟩ calls
  have hopened : Open history 2 := (hopen 2).1 (by decide)
  refine ⟨hopened, fun h => ?_, by decide, hiterations, by decide, by decide, hclose.2 ⟨2, hopened⟩⟩
  exact absurd ((hopen 1).2 h) (by decide)

end NominalSubtyping.Guard
