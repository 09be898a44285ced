import Mathlib.Logic.Basic
import NominalSubtyping.Query.Engine

/-!
# Ideal answers

The *ideal answer* to a question is the one that it deserves if the hierarchy of type names is known
in full. It is computed like the answer of an engine, stage by stage, but from a relation that says
which names lie below which, and without any state: nothing is loaded, counted or recorded.

Three tests decide whether two names have a common subtype, and two of them may be skipped. Ideally
they come down to one condition, apart from the root, which is above everything without being
recorded as such.

## Main definitions

* `Ideal.related` : whether two base types are related.
* `Ideal.answer` : the ideal answer, with arguments compared to a given depth.

## Main results

* `Ideal.answer_congr` : the limits of a configuration do not show in an ideal answer.
* `Ideal.answer_common_skip` : nor do the tests that are skipped, apart from the root.
-/

namespace NominalSubtyping

/-- Two texts are read as what each of them is read as. -/
theorem Engine.readBoth_eq_ok_iff {α β : Type} {read : α → Except BracketError β} {left right : α}
    {first second : β} :
    readBoth read left right = .ok (first, second) ↔
      read left = .ok first ∧ read right = .ok second := by
  rw [readBoth]
  cases read left with
  | error error => exact ⟨fun h => (by cases h), fun h => (by cases h.1)⟩
  | ok first' =>
    cases read right with
    | error error => exact ⟨fun h => (by cases h), fun h => (by cases h.2)⟩
    | ok second' =>
      refine ⟨fun h => ?_, fun h => ?_⟩
      · obtain ⟨rfl, rfl⟩ := Prod.mk.inj (Except.ok.inj h)
        exact ⟨rfl, rfl⟩
      · obtain ⟨h, h'⟩ := h
        obtain rfl := Except.ok.inj h
        obtain rfl := Except.ok.inj h'
        rfl

namespace Ideal

/-- What is decided about the arguments of two type uses without reading them. -/
def rawVerdict? : Relation → (left right : TypeUse) → Option Bool
  | .subtype, left, right =>
    if !right.isGeneric then some true else if !left.isGeneric then some false else none
  | .common _ _, left, right => if left.isGeneric && right.isGeneric then none else some true

/-- The answer to pairs of arguments, up to the first whose answer is not yes. -/
def allPairs (compare : String → String → Answer) : List (String × String) → Answer
  | [] => .ok true
  | (left, right) :: rest =>
    match compare left right with
    | .ok true => allPairs compare rest
    | answer => answer

/-- The answer to the arguments of two type uses, given how pairs of arguments are compared. -/
def compareArguments (descend : List (String × String) → Answer) (left right : TypeUse) : Answer :=
  match Engine.readBoth TypeUse.arguments left right with
  | .error error => .error error
  | .ok (leftArguments, rightArguments) =>
    if leftArguments.length = rightArguments.length then
      descend (leftArguments.zip rightArguments)
    else .ok false

/-- The stages of an answer: whether the base types are related, what is decided about the arguments
without reading them, and the answer to the arguments. -/
def staged (related : Bool) (raw : Option Bool) (arguments : Answer) : Answer :=
  if related then
    match raw with
    | some verdict => .ok verdict
    | none => arguments
  else .ok false

variable (config : Config) (below : (sub sup : String) → Prop)

open Classical in
/-- Whether two base types are related: the left one lies below the right one, or something lies
below both. -/
noncomputable def related : Relation → (left right : String) → Bool
  | .subtype, left, right => decide (below left right)
  | .common skipForward skipBackward, left, right =>
    (!skipForward && config.isRoot right) || (!skipBackward && config.isRoot left) ||
      decide (∃ type, below type left ∧ below type right)

theorem related_subtype_iff {left right : String} :
    related config below .subtype left right = true ↔ below left right := by
  classical
  rw [related, decide_eq_true_iff]

theorem related_common_iff {left right : String} :
    related config below (.common false false) left right = true ↔
      config.isRoot left = true ∨ config.isRoot right = true ∨
        ∃ type, below type left ∧ below type right := by
  classical
  rw [related]
  simp only [Bool.not_false, Bool.true_and, Bool.or_eq_true, decide_eq_true_iff]
  rw [or_assoc, or_left_comm]

/-- Apart from the root, a test that is skipped would have found nothing else. -/
theorem related_common_skip {left right : String} (hleft : config.isRoot left = false)
    (hright : config.isRoot right = false) (skipForward skipBackward : Bool) :
    related config below (.common skipForward skipBackward) left right =
      related config below (.common false false) left right := by
  simp only [related, hleft, hright, Bool.and_false]

/-- One level of a question, given how pairs of arguments are compared. -/
noncomputable def answerWith (descend : Relation → List (String × String) → Answer)
    (relation : Relation) (left right : String) : Answer :=
  match config.verdict? relation left right with
  | some verdict => .ok verdict
  | none =>
    match Engine.readBoth TypeUse.parse left right with
    | .error error => .error error
    | .ok (leftUse, rightUse) =>
      staged (related config below relation leftUse.base rightUse.base)
        (rawVerdict? relation leftUse rightUse)
        (compareArguments (descend relation.onArguments) leftUse rightUse)

/-- The ideal answer to a question whose arguments are compared at most `room` levels deep. -/
noncomputable def answer : (room : Nat) → Relation → (left right : String) → Answer
  | 0 => answerWith config below fun _ _ => .ok false
  | room + 1 => answerWith config below fun relation => allPairs (answer room relation)

/-- Only the special types of a configuration make a difference to what the answer should be. -/
theorem answer_congr {config config' : Config} (hroot : config.rootType = config'.rootType)
    (hvoid : config.voidType = config'.voidType) (room : Nat) :
    answer config below room = answer config' below room := by
  obtain ⟨_, _, _, _, _, _⟩ := config
  obtain ⟨_, _, _, _, _, _⟩ := config'
  obtain rfl := hroot
  obtain rfl := hvoid
  induction room with
  | zero => rfl
  | succ room ih =>
    rw [answer, answer, ih]
    rfl

/-- Whether the root is loaded ahead makes no difference to what the answer should be. -/
theorem answer_preloadRoot (preload : Bool) (room : Nat) :
    answer { config with preloadRoot := preload } below room = answer config below room :=
  answer_congr below (by rfl) (by rfl) room

/-- Nor does the nesting limit, once it is said how deep arguments are compared. -/
theorem answer_maxGenericDepth (limit room : Nat) :
    answer { config with maxGenericDepth := limit } below room = answer config below room :=
  answer_congr below (by rfl) (by rfl) room

section Skip

variable {left right : String}
  (hleft : ∀ use, TypeUse.parse left = .ok use → config.isRoot use.base = false)
  (hright : ∀ use, TypeUse.parse right = .ok use → config.isRoot use.base = false)

include hleft hright

theorem answerWith_common_skip (descend : Relation → List (String × String) → Answer)
    (skipForward skipBackward : Bool) :
    answerWith config below descend (.common skipForward skipBackward) left right =
      answerWith config below descend (.common false false) left right := by
  have hverdict : config.verdict? (.common skipForward skipBackward) left right =
      config.verdict? (.common false false) left right := rfl
  rw [answerWith, answerWith, hverdict]
  cases config.verdict? (.common false false) left right with
  | some verdict => rfl
  | none =>
    cases hread : Engine.readBoth TypeUse.parse left right with
    | error error => rfl
    | ok uses =>
      obtain ⟨hleftRead, hrightRead⟩ := Engine.readBoth_eq_ok_iff.1 hread
      dsimp only
      rw [related_common_skip config below (hleft _ hleftRead) (hright _ hrightRead)]
      rfl

/-- Apart from the root, the tests that are skipped make no difference to what the answer should
be. -/
theorem answer_common_skip (room : Nat) (skipForward skipBackward : Bool) :
    answer config below room (.common skipForward skipBackward) left right =
      answer config below room (.common false false) left right := by
  cases room with
  | zero => exact answerWith_common_skip config below hleft hright _ skipForward skipBackward
  | succ room => exact answerWith_common_skip config below hleft hright _ skipForward skipBackward

end Skip

end Ideal

end NominalSubtyping
