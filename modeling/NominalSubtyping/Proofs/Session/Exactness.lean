import NominalSubtyping.Proofs.Query.Trees
import NominalSubtyping.Proofs.Session.Transparency

/-!
# Answers about type trees

Over a catalog, and with limits that leave room for all that it declares, both questions are decided
by the hierarchy alone: whatever spellings of two type trees a question is put with, and whatever
was done in the session before, the answer says whether the relation between the trees holds, and it
is never a refusal. The special types must be names, that is, have no brackets.

## Main results

* `Session.subtype_answer_exact` : the subtype question.
* `Session.common_answer_exact` : the common-subtype question.
-/

namespace NominalSubtyping

/-- A name of one character. -/
def TypeName.single (c : Char) (h : Text.isBlank c = false ∧ c ≠ '<' ∧ c ≠ '>' ∧ c ≠ ',') :
    TypeName where
  chars := [c]
  framed := by
    refine ⟨List.cons_ne_nil c [], fun d hd => ?_, fun d hd => ?_⟩ <;>
    · obtain rfl := Option.some.inj hd
      exact h.1
  plain d hd := by
    obtain rfl := List.mem_singleton.1 hd
    exact h.2

namespace TypeTree

theorem spells_name (name : TypeName) : Spells ⟨name, []⟩ name.chars :=
  Spells.intro name [] fun _ h => (by cases h)

/-- A type of one argument is spelled with blanks around it. -/
theorem spells_one (name argument : TypeName) :
    Spells ⟨name, [⟨argument, []⟩]⟩
      (TypeUse.written name.chars [' ' :: argument.chars ++ [' ']]) := by
  have hblank : ∀ c ∈ [' '], Text.isBlank c = true := by
    intro c hc
    obtain rfl := List.mem_singleton.1 hc
    rfl
  refine Spells.intro name [⟨⟨argument, []⟩, argument.chars, [' '], [' '], hblank, hblank⟩] ?_
  intro piece hpiece
  obtain rfl := List.mem_singleton.1 hpiece
  exact spells_name argument

end TypeTree

namespace Session

open TypeTree (Spells)

variable {config : Config} {catalog : Catalog} {left right : TypeTree} {leftText rightText : String}

/-- The answer to a subtype question about spellings of two trees says whether the left tree is a
subtype of the right one. -/
theorem subtype_answer_exact (hbuilt : catalog.Built)
    (hdepth : catalog.known.size < config.maxLoadDepth)
    (hiterations : catalog.edgeCount < config.maxLoadIterations)
    (hroot : '<' ∉ config.rootType.toList) (hvoid : '<' ∉ config.voidType.toList)
    (steps : List Step) (hleft : Spells left leftText.toList)
    (hright : Spells right rightText.toList) :
    ∃ verdict, answerAfter config catalog.toSource steps .subtype leftText rightText =
        .ok (.ok verdict) ∧
      (verdict = true ↔
        TypeTree.IsSubtype config catalog.Below config.maxGenericDepth left right) := by
  obtain ⟨verdict, hanswer, hiff⟩ := Ideal.answer_subtype catalog.Below hroot hvoid
    config.maxGenericDepth hleft hright
  exact ⟨verdict, by rw [answerAfter_eq config hbuilt hdepth hiterations, hanswer], hiff⟩

/-- An argument below another one, after a refused question and a load. -/
theorem subtype_answer_exact_argument :
    let catalog := (Catalog.declare {} "B" "A").declareType "L"
    let config : Config := { maxLoadDepth := 4, maxLoadIterations := 2 }
    let list := TypeName.single 'L' (by decide)
    let left : TypeTree := ⟨list, [⟨.single 'B' (by decide), []⟩]⟩
    let right : TypeTree := ⟨list, [⟨.single 'A' (by decide), []⟩]⟩
    catalog.Built ∧ catalog.known.size < config.maxLoadDepth ∧
      catalog.edgeCount < config.maxLoadIterations ∧ Spells left "L< B >".toList ∧
      Spells right "L< A >".toList ∧
      ∃ verdict, answerAfter config catalog.toSource [.query .subtype "B" "A<", .preload "A"]
          .subtype "L< B >" "L< A >" = .ok (.ok verdict) ∧
        (verdict = true ↔
          TypeTree.IsSubtype config catalog.Below config.maxGenericDepth left right) :=
  have hbuilt : ((Catalog.declare {} "B" "A").declareType "L").Built :=
    (Catalog.Built.empty.declare "B" "A").declareType "L"
  ⟨hbuilt, by decide +kernel, by decide +kernel, TypeTree.spells_one _ _, TypeTree.spells_one _ _,
    subtype_answer_exact hbuilt (by decide +kernel) (by decide +kernel) (by decide) (by decide) _
      (TypeTree.spells_one _ _) (TypeTree.spells_one _ _)⟩

/-- The base types alone do not decide: a raw type is no subtype of the same type with an
argument. -/
theorem subtype_answer_not_by_bases :
    let catalog := Catalog.declareType {} "P"
    let config : Config := {}
    let left : TypeTree := ⟨.single 'P' (by decide), []⟩
    let right : TypeTree := ⟨.single 'P' (by decide), [⟨.single 'A' (by decide), []⟩]⟩
    catalog.Built ∧ catalog.known.size < config.maxLoadDepth ∧
      catalog.edgeCount < config.maxLoadIterations ∧ Spells left "P".toList ∧
      Spells right "P< A >".toList ∧ right.isRoot config = false ∧ left.isVoid config = false ∧
      right.isVoid config = false ∧ catalog.Below left.name.text right.name.text ∧
      answerAfter config catalog.toSource [] .subtype "P" "P< A >" = .ok (.ok false) :=
  ⟨Catalog.Built.empty.declareType "P", by decide +kernel, by decide +kernel,
    TypeTree.spells_name _, TypeTree.spells_one _ _, rfl, by decide +kernel, rfl,
    Relation.ReflTransGen.refl, by decide +kernel⟩

/-- The answer to a common-subtype question about spellings of two trees says whether the trees have
a common subtype. -/
theorem common_answer_exact (hbuilt : catalog.Built)
    (hdepth : catalog.known.size < config.maxLoadDepth)
    (hiterations : catalog.edgeCount < config.maxLoadIterations)
    (hroot : '<' ∉ config.rootType.toList) (hvoid : '<' ∉ config.voidType.toList)
    (steps : List Step) (hleft : Spells left leftText.toList)
    (hright : Spells right rightText.toList) :
    ∃ verdict, answerAfter config catalog.toSource steps (.common false false) leftText rightText =
        .ok (.ok verdict) ∧
      (verdict = true ↔
        TypeTree.HaveCommonSubtype config catalog.Below config.maxGenericDepth left right) := by
  obtain ⟨verdict, hanswer, hiff⟩ := Ideal.answer_common catalog.Below hroot hvoid
    config.maxGenericDepth hleft hright
  exact ⟨verdict, by rw [answerAfter_eq config hbuilt hdepth hiterations, hanswer], hiff⟩

/-- Two types with arguments that share a subtype, after the same question was skipped in part. -/
theorem common_answer_exact_argument :
    let catalog := (Catalog.declare {} "C" "A").declare "C" "B"
    let config : Config := { maxLoadDepth := 4, maxLoadIterations := 3 }
    let left : TypeTree := ⟨.single 'A' (by decide), [⟨.single 'A' (by decide), []⟩]⟩
    let right : TypeTree := ⟨.single 'B' (by decide), [⟨.single 'B' (by decide), []⟩]⟩
    catalog.Built ∧ catalog.known.size < config.maxLoadDepth ∧
      catalog.edgeCount < config.maxLoadIterations ∧ Spells left "A< A >".toList ∧
      Spells right "B< B >".toList ∧
      ∃ verdict, answerAfter config catalog.toSource [.query (.common true true) "A< A >" "B< B >"]
          (.common false false) "A< A >" "B< B >" = .ok (.ok verdict) ∧
        (verdict = true ↔
          TypeTree.HaveCommonSubtype config catalog.Below config.maxGenericDepth left right) :=
  have hbuilt : ((Catalog.declare {} "C" "A").declare "C" "B").Built :=
    (Catalog.Built.empty.declare "C" "A").declare "C" "B"
  ⟨hbuilt, by decide +kernel, by decide +kernel, TypeTree.spells_one _ _, TypeTree.spells_one _ _,
    common_answer_exact hbuilt (by decide +kernel) (by decide +kernel) (by decide) (by decide) _
      (TypeTree.spells_one _ _) (TypeTree.spells_one _ _)⟩

end Session

end NominalSubtyping
