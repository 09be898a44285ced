import Mathlib.Data.List.Zip
import NominalSubtyping.Proofs.Query.Revision

/-!
# The two sides of a common subtype

A common subtype of two types is one of the same types the other way round, but the question is not
put symmetrically: the left text is read first, and the pairs of arguments are compared up to the
first whose answer is not yes. So when the sides change places, another text may be the one that is
refused. The answers still *agree*: both are the same verdict, or both are refusals.

## Main definitions

* `Answer.Agrees` : the same verdict, or two refusals.

## Main results

* `Ideal.answer_common_swap` : the ideal answers to a question and to the question with its sides
  exchanged agree.
-/

namespace NominalSubtyping

/-- The answers are the same verdict, or both are refusals. -/
inductive Answer.Agrees : (answer answer' : Answer) → Prop
  | verdict (verdict : Bool) : Agrees (.ok verdict) (.ok verdict)
  | refused (error error' : BracketError) : Agrees (.error error) (.error error')

theorem Answer.Agrees.eq_of_verdict {verdict : Bool} {answer : Answer}
    (h : Agrees (.ok verdict) answer) : answer = .ok verdict := by
  cases h with
  | verdict => rfl

open Answer (Agrees)

theorem Config.verdict?_common_swap (config : Config) (skipForward skipBackward : Bool)
    (left right : String) :
    config.verdict? (.common skipBackward skipForward) right left =
      config.verdict? (.common skipForward skipBackward) left right := by
  simp only [Config.verdict?, Bool.or_comm (config.isRoot right),
    Bool.or_comm (config.isVoid right)]

/-- Either both texts can be read, in either order, or reading them is refused in either order. -/
theorem Engine.readBoth_swap {α β : Type} (read : α → Except BracketError β) (left right : α) :
    (∃ first second, readBoth read left right = .ok (first, second) ∧
      readBoth read right left = .ok (second, first)) ∨
    ∃ error error', readBoth read left right = .error error ∧
      readBoth read right left = .error error' := by
  simp only [readBoth]
  cases read left with
  | error error =>
    cases read right with
    | error error' => exact Or.inr ⟨error, error', rfl, rfl⟩
    | ok second => exact Or.inr ⟨error, error, rfl, rfl⟩
  | ok first =>
    cases read right with
    | error error' => exact Or.inr ⟨error', error', rfl, rfl⟩
    | ok second => exact Or.inl ⟨first, second, rfl, rfl⟩

namespace Ideal

variable (config : Config) (below : (sub sup : String) → Prop) (skipForward skipBackward : Bool)

theorem rawVerdict?_common_swap (left right : TypeUse) :
    rawVerdict? (.common skipBackward skipForward) right left =
      rawVerdict? (.common skipForward skipBackward) left right := by
  simp only [rawVerdict?, Bool.and_comm right.isGeneric]

theorem related_common_swap (left right : String) :
    related config below (.common skipBackward skipForward) right left =
      related config below (.common skipForward skipBackward) left right := by
  classical
  simp only [related, and_comm (b := below _ left)]
  rw [Bool.or_comm (!skipBackward && config.isRoot left)]

variable {config below}

theorem followed_agrees {answer answer' rest rest' : Answer} (h : Agrees answer answer')
    (hrest : Agrees rest rest') : Agrees (followed answer rest) (followed answer' rest') := by
  cases h with
  | verdict verdict =>
    cases verdict with
    | false => exact .verdict false
    | true => exact hrest
  | refused error error' => exact .refused error error'

/-- Two lists of pairs that agree pair by pair end at the same pair, so they agree. -/
theorem allPairs_swap {compare compare' : String → String → Answer}
    (h : ∀ left right, Agrees (compare left right) (compare' right left))
    (pairs : List (String × String)) :
    Agrees (allPairs compare pairs) (allPairs compare' (pairs.map Prod.swap)) := by
  induction pairs with
  | nil => exact .verdict true
  | cons pair pairs ih =>
    obtain ⟨left, right⟩ := pair
    rw [List.map_cons, Prod.swap_prod_mk, allPairs_cons, allPairs_cons]
    exact followed_agrees (h left right) ih

theorem compareArguments_swap {descend descend' : List (String × String) → Answer}
    (h : ∀ pairs, Agrees (descend pairs) (descend' (pairs.map Prod.swap))) (left right : TypeUse) :
    Agrees (compareArguments descend left right) (compareArguments descend' right left) := by
  rw [compareArguments, compareArguments]
  obtain ⟨lefts, rights, hread, hread'⟩ | ⟨error, error', hread, hread'⟩ :=
    Engine.readBoth_swap TypeUse.arguments left right
  · rw [hread, hread']
    dsimp only
    by_cases hlength : lefts.length = rights.length
    · rw [if_pos hlength, if_pos hlength.symm, ← List.zip_swap lefts rights]
      exact h _
    · rw [if_neg hlength, if_neg (Ne.symm hlength)]
      exact .verdict false
  · rw [hread, hread']
    exact .refused error error'

theorem staged_agrees (related : Bool) (raw : Option Bool) {arguments arguments' : Answer}
    (h : Agrees arguments arguments') :
    Agrees (staged related raw arguments) (staged related raw arguments') := by
  cases related with
  | false => exact .verdict false
  | true =>
    cases raw with
    | some verdict => exact .verdict verdict
    | none => exact h

theorem answerWith_common_swap {descend descend' : Relation → List (String × String) → Answer}
    (h : ∀ pairs, Agrees (descend (.common false false) pairs)
      (descend' (.common false false) (pairs.map Prod.swap))) (left right : String) :
    Agrees (answerWith config below descend (.common skipForward skipBackward) left right)
      (answerWith config below descend' (.common skipBackward skipForward) right left) := by
  rw [answerWith, answerWith, config.verdict?_common_swap skipForward]
  cases config.verdict? (.common skipForward skipBackward) left right with
  | some verdict => exact .verdict verdict
  | none =>
    obtain ⟨first, second, hread, hread'⟩ | ⟨error, error', hread, hread'⟩ :=
      Engine.readBoth_swap TypeUse.parse left right
    · rw [hread, hread']
      dsimp only
      rw [related_common_swap config below skipForward, rawVerdict?_common_swap skipForward]
      exact staged_agrees _ _ (compareArguments_swap h first second)
    · rw [hread, hread']
      exact .refused error error'

/-- The ideal answers to a common-subtype question agree when its sides change places. -/
theorem answer_common_swap (room : Nat) (left right : String) :
    Agrees (answer config below room (.common skipForward skipBackward) left right)
      (answer config below room (.common skipBackward skipForward) right left) := by
  induction room generalizing skipForward skipBackward left right with
  | zero => exact answerWith_common_swap _ _ (fun _ => .verdict false) left right
  | succ room ih => exact answerWith_common_swap _ _ (allPairs_swap (ih false false)) left right

end Ideal

end NominalSubtyping
