import NominalSubtyping.Proofs.Query.Ideal

/-!
# Which answers can be revised

When more becomes known about a hierarchy, a question can get another answer. It can only do so if
its answer was no: a yes rests on chains of edges that stay, and a refusal comes after pairs of
arguments whose answers were yes. So answers are *revised* in one way only, and the ideal answer
over a larger hierarchy is a revision of the one over a smaller hierarchy. An answer that comes of
comparing arguments further down revises the shallower one in the same way.

## Main definitions

* `Answer.MayBecome` : an answer that may take the place of another one.
* `Ideal.followed` : the answer to one thing after another.

## Main results

* `Ideal.answer_mono` : in a larger hierarchy nothing but a no is revised.
* `Ideal.answer_room_mono` : nor is anything else with room for more levels of arguments.
-/

namespace NominalSubtyping

/-- The answer `later` may take the place of `answer`: it is the same, unless `answer` is a no. -/
def Answer.MayBecome (answer later : Answer) : Prop :=
  answer = .ok false ∨ later = answer

namespace Answer.MayBecome

variable {answer middle later : Answer}

theorem refl (answer : Answer) : MayBecome answer answer :=
  Or.inr rfl

theorem no (later : Answer) : MayBecome (.ok false) later :=
  Or.inl rfl

theorem trans (h : MayBecome answer middle) (h' : MayBecome middle later) :
    MayBecome answer later := by
  rcases h with h | rfl
  · exact Or.inl h
  · exact h'

theorem eq_of_ne_no (h : MayBecome answer later) (hno : answer ≠ .ok false) : later = answer :=
  h.resolve_left hno

/-- Answers that may become each other are the same. -/
theorem antisymm (h : MayBecome answer later) (h' : MayBecome later answer) : later = answer := by
  rcases h with rfl | h
  · rcases h' with rfl | h'
    · rfl
    · exact h'.symm
  · exact h

end Answer.MayBecome

namespace Ideal

open Answer (MayBecome)

variable {config : Config} {below larger : (sub sup : String) → Prop}

theorem related_mono (h : ∀ {sub sup}, below sub sup → larger sub sup) {relation : Relation}
    {left right : String} (hrelated : related config below relation left right = true) :
    related config larger relation left right = true := by
  classical
  revert hrelated
  cases relation with
  | subtype =>
    rw [related_subtype_iff, related_subtype_iff]
    exact h
  | common skipForward skipBackward =>
    simp only [related, Bool.or_eq_true, decide_eq_true_iff]
    rintro (hroot | ⟨type, hleft, hright⟩)
    · exact Or.inl hroot
    · exact Or.inr ⟨type, h hleft, h hright⟩

/-- The answer to a pair of arguments and to the rest of them: the rest counts after a yes. -/
def followed (answer rest : Answer) : Answer :=
  match answer with
  | .ok true => rest
  | answer => answer

theorem followed_of_ne_yes {answer : Answer} (h : answer ≠ .ok true) (rest : Answer) :
    followed answer rest = answer := by
  rcases answer with error | ⟨_ | _⟩
  · rfl
  · rfl
  · exact absurd rfl h

theorem followed_mono {answer answer' rest rest' : Answer} (h : MayBecome answer answer')
    (hrest : MayBecome rest rest') : MayBecome (followed answer rest) (followed answer' rest') := by
  rcases h with rfl | rfl
  · exact .no _
  · by_cases hyes : answer' = .ok true
    · rw [hyes]
      exact hrest
    · rw [followed_of_ne_yes hyes, followed_of_ne_yes hyes]
      exact .refl _

theorem allPairs_cons (compare : String → String → Answer) (left right : String)
    (rest : List (String × String)) :
    allPairs compare ((left, right) :: rest) =
      followed (compare left right) (allPairs compare rest) :=
  rfl

/-- Pairs of arguments are revised like the first of them whose answer is not yes. -/
theorem allPairs_mono {compare compare' : String → String → Answer}
    (h : ∀ left right, MayBecome (compare left right) (compare' left right))
    (pairs : List (String × String)) :
    MayBecome (allPairs compare pairs) (allPairs compare' pairs) := by
  induction pairs with
  | nil => exact .refl _
  | cons pair pairs ih =>
    rw [allPairs_cons, allPairs_cons]
    exact followed_mono (h pair.1 pair.2) ih

theorem compareArguments_mono {descend descend' : List (String × String) → Answer}
    (h : ∀ pairs, MayBecome (descend pairs) (descend' pairs)) (left right : TypeUse) :
    MayBecome (compareArguments descend left right) (compareArguments descend' left right) := by
  rw [compareArguments, compareArguments]
  rcases Engine.readBoth TypeUse.arguments left right with error | ⟨lefts, rights⟩
  · exact .refl _
  · dsimp only
    split
    · exact h _
    · exact .refl _

theorem staged_mono {related related' : Bool} {arguments arguments' : Answer}
    (hrelated : related = true → related' = true) (raw : Option Bool)
    (h : MayBecome arguments arguments') :
    MayBecome (staged related raw arguments) (staged related' raw arguments') := by
  cases related with
  | false => exact .no _
  | true =>
    rw [hrelated rfl]
    cases raw with
    | some verdict => exact .refl _
    | none => exact h

theorem answerWith_mono (h : ∀ {sub sup}, below sub sup → larger sub sup)
    {descend descend' : Relation → List (String × String) → Answer}
    (hdescend : ∀ relation pairs, MayBecome (descend relation pairs) (descend' relation pairs))
    (relation : Relation) (left right : String) :
    MayBecome (answerWith config below descend relation left right)
      (answerWith config larger descend' relation left right) := by
  rw [answerWith, answerWith]
  cases config.verdict? relation left right with
  | some verdict => exact .refl _
  | none =>
    rcases Engine.readBoth TypeUse.parse left right with error | ⟨leftUse, rightUse⟩
    · exact .refl _
    · exact staged_mono (related_mono h) _
        (compareArguments_mono (hdescend relation.onArguments) leftUse rightUse)

/-- In a larger hierarchy nothing but a no is revised. -/
theorem answer_mono (h : ∀ {sub sup}, below sub sup → larger sub sup) (room : Nat) :
    ∀ relation left right, MayBecome (answer config below room relation left right)
      (answer config larger room relation left right) := by
  induction room with
  | zero => exact answerWith_mono h fun _ _ => .refl _
  | succ room ih => exact answerWith_mono h fun relation => allPairs_mono (ih relation)

/-- With room for more levels of arguments nothing but a no is revised. -/
theorem answer_room_mono {room room' : Nat} (hle : room ≤ room') :
    ∀ relation left right, MayBecome (answer config below room relation left right)
      (answer config below room' relation left right) := by
  induction room generalizing room' with
  | zero =>
    -- Arguments that there is no room for are answered with no.
    cases room' with
    | zero => exact fun _ _ _ => .refl _
    | succ room' => exact answerWith_mono (fun h => h) fun _ _ => .no _
  | succ room ih =>
    obtain ⟨room', rfl⟩ := Nat.exists_eq_add_of_lt hle
    exact answerWith_mono (fun h => h) fun relation =>
      allPairs_mono (ih (Nat.le_add_right room room') relation)

end Ideal

end NominalSubtyping
