import NominalSubtyping.Proofs.Query.Symmetry
import NominalSubtyping.Proofs.TypeUse.Text

/-!
# From a subtype to a common subtype

If one type is a subtype of another, it is a common subtype of the two. The two questions are
decided by rules of their own, and each of them may be answered without reading all of the two
texts; still a yes to the subtype question comes with a yes to the common-subtype question, either
way round. The exception is the void type, which is a subtype of itself but has no subtype in common
with itself. So the void type must not come up, neither as one of the types nor among their
arguments, at any level.

## Main definitions

* `TypeUse.Part` : the texts that come up when a text is read level by level.
* `TypeUse.Avoids` : a text in which a given name does not come up.

## Main results

* `Ideal.answerWith_eq_yes_iff` : what there is to a yes.
* `Ideal.answer_common_of_subtype` : a yes to the subtype question is one to the common-subtype
  question.
-/

namespace NominalSubtyping

/-! ### What comes up in a text -/

namespace TypeUse

/-- The text `part` comes up when `text` is read level by level: it is `text` itself, or it comes up
in an argument of `text`. Where a text cannot be read, or its arguments cannot, nothing comes up. -/
inductive Part : (part text : String) → Prop
  | self (text : String) : Part text text
  | argument {part argument text : String} {use : TypeUse} {arguments : List String}
      (hread : parse text = .ok use) (harguments : use.arguments = .ok arguments)
      (hmem : argument ∈ arguments) (h : Part part argument) : Part part text

/-- The name does not come up when `text` is read. -/
def Avoids (name text : String) : Prop :=
  ∀ part, Part part text → part ≠ name

namespace Avoids

variable {name text : String} {use : TypeUse} {arguments : List String}

theorem ne (h : Avoids name text) : text ≠ name :=
  h text (.self text)

theorem argument (h : Avoids name text) (hread : parse text = .ok use)
    (harguments : use.arguments = .ok arguments) {argument : String} (hmem : argument ∈ arguments) :
    Avoids name argument :=
  fun part hpart => h part (.argument hread harguments hmem hpart)

/-- A name comes up in a text that can be read only as the text itself or in one of its
arguments. -/
theorem of_read (hne : text ≠ name) (hread : parse text = .ok use)
    (harguments : use.arguments = .ok arguments)
    (h : ∀ argument ∈ arguments, Avoids name argument) : Avoids name text := by
  intro part hpart
  cases hpart with
  | self => exact hne
  | argument hread' harguments' hmem hpart =>
    obtain rfl := Except.ok.inj (hread.symm.trans hread')
    obtain rfl := Except.ok.inj (harguments.symm.trans harguments')
    exact h _ hmem part hpart

/-- In a text without brackets nothing comes up but the text itself. -/
theorem of_raw (hraw : '<' ∉ text.toList) (hne : text ≠ name) : Avoids name text :=
  of_read hne (parse_raw hraw) rfl fun _ hmem => absurd hmem List.not_mem_nil

/-- Nor does anything in a text whose arguments cannot be read. -/
theorem of_refused {error : BracketError} (hne : text ≠ name) (hread : parse text = .ok use)
    (hrefused : use.arguments = .error error) : Avoids name text := by
  intro part hpart
  cases hpart with
  | self => exact hne
  | argument hread' harguments _ _ =>
    obtain rfl := Except.ok.inj (hread.symm.trans hread')
    rw [hrefused] at harguments
    cases harguments

end Avoids

end TypeUse

/-! ### The special types -/

open TypeUse (Avoids)

namespace Config

variable {config : Config} {left right : String}

/-- Without the void type, a question that the special types do not answer with yes is left open by
them. -/
theorem verdict?_eq_none_of_ne_yes {relation : Relation} (hleft : Avoids config.voidType left)
    (hright : Avoids config.voidType right) (h : config.verdict? relation left right ≠ some true) :
    config.verdict? relation left right = none := by
  have hleft' : config.isVoid left = false := decide_eq_false hleft.ne
  have hright' : config.isVoid right = false := decide_eq_false hright.ne
  revert h
  cases relation with
  | subtype =>
    simp only [Config.verdict?, hleft', hright']
    cases config.isRoot right <;> simp
  | common skipForward skipBackward =>
    simp only [Config.verdict?, hleft', hright']
    cases config.isRoot left || config.isRoot right <;> simp

/-- What the special types answer with yes about a subtype, they answer with yes about a common
one. -/
theorem verdict?_common_of_subtype (skipForward skipBackward : Bool)
    (hleft : Avoids config.voidType left) (h : config.verdict? .subtype left right = some true) :
    config.verdict? (.common skipForward skipBackward) left right = some true := by
  have hleft' : config.isVoid left = false := decide_eq_false hleft.ne
  revert h
  simp only [Config.verdict?, hleft']
  cases config.isRoot right <;> simp

end Config

namespace Ideal

/-! ### What there is to a yes -/

theorem allPairs_eq_yes_iff {compare : String → String → Answer} {pairs : List (String × String)} :
    allPairs compare pairs = .ok true ↔ ∀ pair ∈ pairs, compare pair.1 pair.2 = .ok true := by
  induction pairs with
  | nil => exact ⟨fun _ pair hpair => absurd hpair List.not_mem_nil, fun _ => rfl⟩
  | cons pair pairs ih =>
    rw [allPairs_cons, List.forall_mem_cons, ← ih]
    by_cases hyes : compare pair.1 pair.2 = .ok true
    · rw [hyes, followed, and_iff_right rfl]
    · rw [followed_of_ne_yes hyes]
      exact ⟨fun h => absurd h hyes, fun h => absurd h.1 hyes⟩

theorem compareArguments_eq_yes_iff {descend : List (String × String) → Answer}
    {left right : TypeUse} :
    compareArguments descend left right = .ok true ↔ ∃ lefts rights,
      left.arguments = .ok lefts ∧ right.arguments = .ok rights ∧ lefts.length = rights.length ∧
        descend (lefts.zip rights) = .ok true := by
  rw [compareArguments]
  constructor
  · intro h
    cases hread : Engine.readBoth TypeUse.arguments left right with
    | error error =>
      rw [hread] at h
      cases h
    | ok lists =>
      obtain ⟨hlefts, hrights⟩ := Engine.readBoth_eq_ok_iff.1 hread
      rw [hread] at h
      dsimp only at h
      split at h
      · exact ⟨lists.1, lists.2, hlefts, hrights, ‹_›, h⟩
      · cases h
  · rintro ⟨lefts, rights, hlefts, hrights, hlength, hyes⟩
    rw [Engine.readBoth_eq_ok_iff.2 ⟨hlefts, hrights⟩]
    dsimp only
    rw [if_pos hlength, hyes]

theorem staged_eq_yes_iff {related : Bool} {raw : Option Bool} {arguments : Answer} :
    staged related raw arguments = .ok true ↔
      related = true ∧ (raw = some true ∨ raw = none ∧ arguments = .ok true) := by
  cases related with
  | false => simp [staged]
  | true =>
    cases raw with
    | none => simp [staged]
    | some verdict => simp [staged]

variable {config : Config} {below : (sub sup : String) → Prop} {left right : String}

/-- A question is answered with yes by the special types, or because the base types are related and
nothing is against the arguments. -/
theorem answerWith_eq_yes_iff {descend : Relation → List (String × String) → Answer}
    {relation : Relation} :
    answerWith config below descend relation left right = .ok true ↔
      config.verdict? relation left right = some true ∨
      config.verdict? relation left right = none ∧ ∃ leftUse rightUse,
        TypeUse.parse left = .ok leftUse ∧ TypeUse.parse right = .ok rightUse ∧
        related config below relation leftUse.base rightUse.base = true ∧
        (rawVerdict? relation leftUse rightUse = some true ∨
          rawVerdict? relation leftUse rightUse = none ∧ ∃ lefts rights,
            leftUse.arguments = .ok lefts ∧ rightUse.arguments = .ok rights ∧
            lefts.length = rights.length ∧
            descend relation.onArguments (lefts.zip rights) = .ok true) := by
  rw [answerWith]
  cases config.verdict? relation left right with
  | some verdict => simp
  | none =>
    simp only [reduceCtorEq, false_or, true_and]
    cases hread : Engine.readBoth TypeUse.parse left right with
    | error error =>
      refine ⟨fun h => (by cases h), ?_⟩
      rintro ⟨leftUse, rightUse, hleft, hright, -⟩
      rw [Engine.readBoth_eq_ok_iff.2 ⟨hleft, hright⟩] at hread
      cases hread
    | ok uses =>
      obtain ⟨hleft, hright⟩ := Engine.readBoth_eq_ok_iff.1 hread
      dsimp only
      rw [staged_eq_yes_iff, compareArguments_eq_yes_iff]
      constructor
      · exact fun h => ⟨uses.1, uses.2, hleft, hright, h⟩
      · rintro ⟨leftUse, rightUse, hleft', hright', h⟩
        obtain rfl := Except.ok.inj (hleft.symm.trans hleft')
        obtain rfl := Except.ok.inj (hright.symm.trans hright')
        exact h

/-! ### Stage by stage -/

variable (skipForward skipBackward : Bool)

/-- A type below another one is below both. -/
theorem related_common_of_subtype (hrefl : ∀ name, below name name)
    (h : related config below .subtype left right = true) :
    related config below (.common skipForward skipBackward) left right = true := by
  classical
  rw [related_subtype_iff] at h
  simp only [related, Bool.or_eq_true, decide_eq_true_iff]
  exact Or.inr ⟨left, hrefl left, h⟩

theorem rawVerdict?_common_of_subtype {left right : TypeUse}
    (h : rawVerdict? .subtype left right ≠ some false) :
    rawVerdict? (.common skipForward skipBackward) left right =
      rawVerdict? .subtype left right := by
  revert h
  simp only [rawVerdict?]
  cases left.isGeneric <;> cases right.isGeneric <;> simp

/-- One level of the questions, given that the pairs of arguments follow. -/
theorem answerWith_common_of_subtype (hrefl : ∀ name, below name name)
    {descend : Relation → List (String × String) → Answer}
    (hdescend : ∀ pairs, (∀ pair ∈ pairs, Avoids config.voidType pair.1 ∧
        Avoids config.voidType pair.2) →
      descend .subtype pairs = .ok true → descend (.common false false) pairs = .ok true)
    (hleft : Avoids config.voidType left) (hright : Avoids config.voidType right)
    (h : answerWith config below descend .subtype left right = .ok true) :
    answerWith config below descend (.common skipForward skipBackward) left right = .ok true := by
  rw [answerWith_eq_yes_iff]
  by_cases hspecial : config.verdict? (.common skipForward skipBackward) left right = some true
  · exact Or.inl hspecial
  refine Or.inr ⟨Config.verdict?_eq_none_of_ne_yes hleft hright hspecial, ?_⟩
  obtain hverdict | ⟨-, leftUse, rightUse, hleftRead, hrightRead, hrelated, harguments⟩ :=
    answerWith_eq_yes_iff.1 h
  · exact absurd (Config.verdict?_common_of_subtype _ _ hleft hverdict) hspecial
  refine ⟨leftUse, rightUse, hleftRead, hrightRead,
    related_common_of_subtype skipForward skipBackward hrefl hrelated, ?_⟩
  obtain hraw | ⟨hraw, lefts, rights, hlefts, hrights, hlength, hyes⟩ := harguments
  · rw [rawVerdict?_common_of_subtype _ _ (by rw [hraw]; simp)]
    exact Or.inl hraw
  · rw [rawVerdict?_common_of_subtype _ _ (by rw [hraw]; simp)]
    refine Or.inr ⟨hraw, lefts, rights, hlefts, hrights, hlength, hdescend _ ?_ hyes⟩
    intro pair hpair
    obtain ⟨hmem, hmem'⟩ := List.of_mem_zip hpair
    exact ⟨hleft.argument hleftRead hlefts hmem, hright.argument hrightRead hrights hmem'⟩

/-- A yes to the subtype question comes with a yes to the common-subtype question. -/
theorem answer_common_of_subtype (hrefl : ∀ name, below name name) (room : Nat)
    (hleft : Avoids config.voidType left) (hright : Avoids config.voidType right)
    (h : answer config below room .subtype left right = .ok true) :
    answer config below room (.common skipForward skipBackward) left right = .ok true := by
  induction room generalizing left right skipForward skipBackward with
  | zero =>
    refine answerWith_common_of_subtype _ _ hrefl (fun _ _ hno => ?_) hleft hright h
    cases hno
  | succ room ih =>
    refine answerWith_common_of_subtype _ _ hrefl (fun pairs hpairs hyes => ?_) hleft hright h
    rw [allPairs_eq_yes_iff] at hyes ⊢
    intro pair hpair
    obtain ⟨hfirst, hsecond⟩ := hpairs pair hpair
    exact ih false false hfirst hsecond (hyes pair hpair)

/-- And it does so the other way round, since a yes agrees with nothing but a yes. -/
theorem answer_common_swap_of_subtype (hrefl : ∀ name, below name name) (room : Nat)
    (hleft : Avoids config.voidType left) (hright : Avoids config.voidType right)
    (h : answer config below room .subtype left right = .ok true) :
    answer config below room (.common skipForward skipBackward) right left = .ok true := by
  refine Answer.Agrees.eq_of_verdict ?_
  rw [← answer_common_of_subtype skipBackward skipForward hrefl room hleft hright h]
  exact answer_common_swap skipBackward skipForward room left right

end Ideal

end NominalSubtyping
