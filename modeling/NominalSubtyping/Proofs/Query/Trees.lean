import NominalSubtyping.Proofs.Query.Ideal
import NominalSubtyping.Proofs.TypeUse.Tree

/-!
# Relations between type trees

What the two questions mean is said here on type trees, without reading any text. A type is a
subtype of another one if its name lies below the other name and its arguments are subtypes of the
other arguments, position by position; a raw supertype admits all arguments, and a raw subtype
satisfies none. Two types have a common subtype if something lies below both names and the arguments
have common subtypes, position by position, unless one of the types is raw. The root and the void
type are special, but only without arguments. Arguments count down to a given depth; deeper ones are
unrelated.

The ideal answer to a question about two spellings is exactly that, and no spelling is refused.

## Main definitions

* `TypeTree.IsSubtype` : one tree is a subtype of another.
* `TypeTree.HaveCommonSubtype` : two trees have a common subtype.

## Main results

* `Ideal.answer_subtype`, `Ideal.answer_common` : the ideal answers about spellings.
-/

namespace NominalSubtyping

namespace TypeTree

/-- The tree is the root, without arguments. -/
def isRoot (config : Config) (tree : TypeTree) : Bool :=
  tree.arguments.isEmpty && config.isRoot tree.name.text

/-- The tree is the void type, without arguments. -/
def isVoid (config : Config) (tree : TypeTree) : Bool :=
  tree.arguments.isEmpty && config.isVoid tree.name.text

variable (config : Config) (below : (sub sup : String) → Prop)

/-- One level of the subtype relation, given when argument lists agree. -/
def SubtypeWith (agree : List TypeTree → List TypeTree → Prop) (left right : TypeTree) : Prop :=
  if right.isRoot config then True
  else if left.isVoid config then right.isVoid config = true
  else if right.isVoid config then False
  else below left.name.text right.name.text ∧
    (right.arguments = [] ∨ agree left.arguments right.arguments)

/-- The tree `left` is a subtype of `right`, with arguments compared at most `depth` levels deep. -/
def IsSubtype : (depth : Nat) → (left right : TypeTree) → Prop
  | 0 => SubtypeWith config below fun _ _ => False
  | depth + 1 => SubtypeWith config below (List.Forall₂ (IsSubtype depth))

/-- One level of the common-subtype relation, given when argument lists agree. -/
def CommonWith (agree : List TypeTree → List TypeTree → Prop) (left right : TypeTree) : Prop :=
  if left.isRoot config || right.isRoot config then True
  else if left.isVoid config || right.isVoid config then False
  else (config.isRoot left.name.text = true ∨ config.isRoot right.name.text = true ∨
      ∃ type, below type left.name.text ∧ below type right.name.text) ∧
    (left.arguments = [] ∨ right.arguments = [] ∨ agree left.arguments right.arguments)

/-- The trees `left` and `right` have a common subtype, with arguments compared at most `depth`
levels deep. -/
def HaveCommonSubtype : (depth : Nat) → (left right : TypeTree) → Prop
  | 0 => CommonWith config below fun _ _ => False
  | depth + 1 => CommonWith config below (List.Forall₂ (HaveCommonSubtype depth))

end TypeTree

/-! ### The special types -/

namespace Config

variable {config : Config}

theorem mem_of_mem_simpleName {qualified : String} {c : Char}
    (h : c ∈ (simpleName qualified).toList) : c ∈ qualified.toList := by
  rw [simpleName, String.toList_ofList, List.mem_reverse] at h
  exact List.mem_reverse.1 ((List.takeWhile_sublist _).subset h)

end Config

namespace TypeTree.Spells

variable {config : Config} {tree : TypeTree} {text : String}

theorem isVoid_eq (h : Spells tree text.toList) (hvoid : '<' ∉ config.voidType.toList) :
    config.isVoid text = tree.isVoid config := by
  rw [Bool.eq_iff_iff, TypeTree.isVoid, Config.isVoid, Config.isVoid, Bool.and_eq_true,
    decide_eq_true_iff, decide_eq_true_iff, List.isEmpty_iff]
  exact h.eq_iff hvoid

theorem isRoot_eq (h : Spells tree text.toList) (hroot : '<' ∉ config.rootType.toList) :
    config.isRoot text = tree.isRoot config := by
  have hsimple : '<' ∉ (Config.simpleName config.rootType).toList :=
    fun hmem => hroot (Config.mem_of_mem_simpleName hmem)
  rw [Bool.eq_iff_iff, TypeTree.isRoot, Config.isRoot, Config.isRoot, Bool.and_eq_true,
    Bool.or_eq_true, Bool.or_eq_true, decide_eq_true_iff, decide_eq_true_iff, decide_eq_true_iff,
    decide_eq_true_iff, List.isEmpty_iff, h.eq_iff hroot, h.eq_iff hsimple]
  exact and_or_left.symm

end TypeTree.Spells

/-! ### Ideal answers about spellings -/

namespace Ideal

open TypeTree (Spells)

variable {config : Config} {below : (sub sup : String) → Prop} {left right : TypeTree}
  {leftText rightText : String}

/-- The text is a spelling of the tree. -/
def Spelled (tree : TypeTree) (text : String) : Prop :=
  Spells tree text.toList

/-- The answer is no refusal, and it is yes exactly if the statement holds. -/
def Decides (answer : Answer) (statement : Prop) : Prop :=
  ∃ verdict, answer = .ok verdict ∧ (verdict = true ↔ statement)

theorem decides_ok {verdict : Bool} {statement : Prop} (h : verdict = true ↔ statement) :
    Decides (.ok verdict) statement :=
  ⟨verdict, rfl, h⟩

/-- Pairs of spellings are answered yes if the trees agree position by position. -/
theorem allPairs_decides {compare : String → String → Answer}
    {agrees : TypeTree → TypeTree → Prop}
    (hcompare : ∀ {left right leftText rightText}, Spelled left leftText →
      Spelled right rightText → Decides (compare leftText rightText) (agrees left right))
    {lefts rights : List TypeTree} {leftTexts rightTexts : List String}
    (hleft : List.Forall₂ Spelled lefts leftTexts) (hright : List.Forall₂ Spelled rights rightTexts)
    (hlength : lefts.length = rights.length) :
    Decides (allPairs compare (leftTexts.zip rightTexts)) (List.Forall₂ agrees lefts rights) := by
  induction hleft generalizing rights rightTexts with
  | nil =>
    obtain rfl := List.eq_nil_of_length_eq_zero hlength.symm
    exact decides_ok ⟨fun _ => List.Forall₂.nil, fun _ => rfl⟩
  | cons hfirst _ ih =>
    rcases hright with _ | ⟨hfirst', hrest'⟩
    · cases hlength
    · obtain ⟨verdict, hanswer, hiff⟩ := hcompare hfirst hfirst'
      rw [List.zip_cons_cons, allPairs, hanswer, List.forall₂_cons, ← hiff]
      cases verdict with
      | false => exact decides_ok (by simp)
      | true =>
        rw [eq_self_iff_true, true_and]
        exact ih hrest' (Nat.succ.inj hlength)

/-- The arguments of two type uses are read and compared. -/
theorem compareArguments_decides {leftUse rightUse : TypeUse}
    {descend : List (String × String) → Answer} {lefts rights : List TypeTree} {agree : Prop}
    (hleft : ∃ texts, leftUse.arguments = .ok texts ∧ List.Forall₂ Spelled lefts texts)
    (hright : ∃ texts, rightUse.arguments = .ok texts ∧ List.Forall₂ Spelled rights texts)
    (hagree : agree → lefts.length = rights.length)
    (hdescend : ∀ {leftTexts rightTexts}, List.Forall₂ Spelled lefts leftTexts →
      List.Forall₂ Spelled rights rightTexts → lefts.length = rights.length →
      Decides (descend (leftTexts.zip rightTexts)) agree) :
    Decides (compareArguments descend leftUse rightUse) agree := by
  obtain ⟨leftTexts, hleftRead, hleftSpelled⟩ := hleft
  obtain ⟨rightTexts, hrightRead, hrightSpelled⟩ := hright
  rw [compareArguments, Engine.readBoth_eq_ok_iff.2 ⟨hleftRead, hrightRead⟩]
  dsimp only
  rw [← hleftSpelled.length_eq, ← hrightSpelled.length_eq]
  by_cases hlength : lefts.length = rights.length
  · rw [if_pos hlength]
    exact hdescend hleftSpelled hrightSpelled hlength
  · rw [if_neg hlength]
    exact decides_ok ⟨fun h => (by cases h), fun h => absurd (hagree h) hlength⟩

/-- The base types are compared first, then what is decided without reading the arguments, then the
arguments. -/
theorem staged_decides {holds : Bool} {raw : Option Bool} {rest : Answer} {bases arguments : Prop}
    (hbases : holds = true ↔ bases)
    (hraw : ∀ verdict, raw = some verdict → (verdict = true ↔ arguments))
    (hrest : raw = none → Decides rest arguments) :
    Decides (staged holds raw rest) (bases ∧ arguments) := by
  rw [← hbases]
  cases holds with
  | false => exact decides_ok (by simp)
  | true =>
    rw [eq_self_iff_true, true_and]
    cases raw with
    | none => exact hrest rfl
    | some verdict => exact decides_ok (hraw verdict rfl)

section Level

variable (hroot : '<' ∉ config.rootType.toList) (hvoid : '<' ∉ config.voidType.toList)
  {descend : Relation → List (String × String) → Answer}
  {agree : List TypeTree → List TypeTree → Prop}
  (hagree : ∀ {lefts rights}, agree lefts rights → lefts.length = rights.length)

include hroot hvoid hagree

/-- One level of the subtype question about two spellings. -/
theorem answerWith_subtype
    (hdescend : ∀ {lefts rights leftTexts rightTexts}, List.Forall₂ Spelled lefts leftTexts →
      List.Forall₂ Spelled rights rightTexts → lefts.length = rights.length →
      Decides (descend .subtype (leftTexts.zip rightTexts)) (agree lefts rights))
    (hleft : Spelled left leftText) (hright : Spelled right rightText) :
    Decides (answerWith config below descend .subtype leftText rightText)
      (TypeTree.SubtypeWith config below agree left right) := by
  obtain ⟨leftUse, hleftParse, hleftBase, hleftGeneric, hleftArguments⟩ := hleft.exists_use
  obtain ⟨rightUse, hrightParse, hrightBase, hrightGeneric, hrightArguments⟩ := hright.exists_use
  rw [answerWith, Config.verdict?, hright.isRoot_eq hroot, hleft.isVoid_eq hvoid,
    hright.isVoid_eq hvoid, TypeTree.SubtypeWith]
  by_cases hr : right.isRoot config = true
  · rw [if_pos hr, if_pos hr]
    exact decides_ok (by simp)
  rw [if_neg hr, if_neg hr]
  by_cases hv : left.isVoid config = true
  · rw [if_pos hv, if_pos hv]
    exact decides_ok Iff.rfl
  rw [if_neg hv, if_neg hv]
  by_cases hw : right.isVoid config = true
  · rw [if_pos hw, if_pos hw]
    exact decides_ok (by simp)
  rw [if_neg hw, if_neg hw, Engine.readBoth_eq_ok_iff.2 ⟨hleftParse, hrightParse⟩]
  refine staged_decides ?_ ?_ ?_
  · rw [hleftBase, hrightBase, related_subtype_iff]
  · intro verdict hraw
    rw [rawVerdict?, hleftGeneric, hrightGeneric, Bool.not_not, Bool.not_not] at hraw
    by_cases hnone : right.arguments = []
    · rw [hnone] at hraw ⊢
      obtain rfl := Option.some.inj hraw
      simp
    · rw [List.isEmpty_eq_false_iff.2 hnone, if_neg Bool.false_ne_true] at hraw
      by_cases hnone' : left.arguments = []
      · -- A raw subtype has fewer arguments than a supertype that is not raw.
        rw [hnone'] at hraw ⊢
        obtain rfl := Option.some.inj hraw
        refine ⟨fun h => (by cases h), fun h => ?_⟩
        have hlength := hagree (h.resolve_left hnone)
        exact absurd (List.eq_nil_of_length_eq_zero hlength.symm) hnone
      · rw [List.isEmpty_eq_false_iff.2 hnone', if_neg Bool.false_ne_true] at hraw
        cases hraw
  · intro hraw
    have hnone : right.arguments ≠ [] := by
      intro hnil
      rw [rawVerdict?, hrightGeneric, hnil] at hraw
      cases hraw
    have hnone' : left.arguments ≠ [] := by
      intro hnil
      rw [rawVerdict?, hleftGeneric, hnil] at hraw
      split at hraw <;> cases hraw
    rw [or_iff_right hnone]
    exact compareArguments_decides (hleftArguments hnone') (hrightArguments hnone)
      (fun ha => hagree ha) fun h h' => hdescend h h'

/-- One level of the common-subtype question about two spellings. -/
theorem answerWith_common
    (hdescend : ∀ {lefts rights leftTexts rightTexts}, List.Forall₂ Spelled lefts leftTexts →
      List.Forall₂ Spelled rights rightTexts → lefts.length = rights.length →
      Decides (descend (.common false false) (leftTexts.zip rightTexts)) (agree lefts rights))
    (hleft : Spelled left leftText) (hright : Spelled right rightText) :
    Decides (answerWith config below descend (.common false false) leftText rightText)
      (TypeTree.CommonWith config below agree left right) := by
  obtain ⟨leftUse, hleftParse, hleftBase, hleftGeneric, hleftArguments⟩ := hleft.exists_use
  obtain ⟨rightUse, hrightParse, hrightBase, hrightGeneric, hrightArguments⟩ := hright.exists_use
  rw [answerWith, Config.verdict?, hleft.isRoot_eq hroot, hright.isRoot_eq hroot,
    hleft.isVoid_eq hvoid, hright.isVoid_eq hvoid, TypeTree.CommonWith]
  by_cases hr : (left.isRoot config || right.isRoot config) = true
  · rw [if_pos hr, if_pos hr]
    exact decides_ok (by simp)
  rw [if_neg hr, if_neg hr]
  by_cases hv : (left.isVoid config || right.isVoid config) = true
  · rw [if_pos hv, if_pos hv]
    exact decides_ok (by simp)
  rw [if_neg hv, if_neg hv, Engine.readBoth_eq_ok_iff.2 ⟨hleftParse, hrightParse⟩]
  refine staged_decides ?_ ?_ ?_
  · rw [hleftBase, hrightBase, related_common_iff]
  · intro verdict hraw
    rw [rawVerdict?, hleftGeneric, hrightGeneric] at hraw
    split at hraw
    · cases hraw
    · rename_i hsome
      obtain rfl := Option.some.inj hraw
      simp only [Bool.and_eq_true, Bool.not_eq_true', List.isEmpty_eq_false_iff, not_and_or,
        not_not] at hsome
      simp only [true_iff]
      exact hsome.imp_right Or.inl
  · intro hraw
    rw [rawVerdict?, hleftGeneric, hrightGeneric] at hraw
    split at hraw
    · rename_i hsome
      simp only [Bool.and_eq_true, Bool.not_eq_true', List.isEmpty_eq_false_iff] at hsome
      rw [or_iff_right hsome.1, or_iff_right hsome.2]
      exact compareArguments_decides (hleftArguments hsome.1) (hrightArguments hsome.2)
        (fun ha => hagree ha) fun h h' => hdescend h h'
    · cases hraw

end Level

section Spelled

variable (below) (hroot : '<' ∉ config.rootType.toList) (hvoid : '<' ∉ config.voidType.toList)

include hroot hvoid

/-- The ideal answer to the subtype question about two spellings. -/
theorem answer_subtype (depth : Nat) : ∀ {left right : TypeTree} {leftText rightText : String},
    Spelled left leftText → Spelled right rightText →
      Decides (answer config below depth .subtype leftText rightText)
        (TypeTree.IsSubtype config below depth left right) := by
  induction depth with
  | zero =>
    intro left right leftText rightText
    exact answerWith_subtype hroot hvoid False.elim fun _ _ _ => decides_ok (by simp)
  | succ depth ih =>
    intro left right leftText rightText
    exact answerWith_subtype hroot hvoid List.Forall₂.length_eq fun h h' => allPairs_decides ih h h'

/-- The ideal answer to the common-subtype question about two spellings. -/
theorem answer_common (depth : Nat) : ∀ {left right : TypeTree} {leftText rightText : String},
    Spelled left leftText → Spelled right rightText →
      Decides (answer config below depth (.common false false) leftText rightText)
        (TypeTree.HaveCommonSubtype config below depth left right) := by
  induction depth with
  | zero =>
    intro left right leftText rightText
    exact answerWith_common hroot hvoid False.elim fun _ _ _ => decides_ok (by simp)
  | succ depth ih =>
    intro left right leftText rightText
    exact answerWith_common hroot hvoid List.Forall₂.length_eq fun h h' => allPairs_decides ih h h'

end Spelled

end Ideal

end NominalSubtyping
