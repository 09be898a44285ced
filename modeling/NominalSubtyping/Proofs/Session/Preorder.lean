import NominalSubtyping.Proofs.Query.Preorder
import NominalSubtyping.Proofs.Session.Exactness

/-!
# A session answers subtype questions as a preorder

Over a catalog, and with limits that leave room for all that it declares, a session finds every type
to be a subtype of itself, as long as its arguments are not nested deeper than they are compared,
and it chains what it has found: if it says yes about two types, and yes about the second and a
third, it says yes about the first and the third. The questions may be put in any order, with others
in between and in other spellings. The type in the middle must not mention the root, of which
everything is a subtype.

## Main results

* `Session.subtype_preorder` : subtype questions are answered by a preorder on type trees.
-/

namespace NominalSubtyping.Session

open TypeTree (Spells Occurs)

variable {config : Config} {catalog : Catalog}

/-- A subtype question about spellings is answered with yes exactly if the trees are so related. -/
theorem answerAfter_subtype_iff (hbuilt : catalog.Built)
    (hdepth : catalog.known.size < config.maxLoadDepth)
    (hiterations : catalog.edgeCount < config.maxLoadIterations)
    (hroot : '<' ∉ config.rootType.toList) (hvoid : '<' ∉ config.voidType.toList)
    {left right : TypeTree} {leftText rightText : String} (hleft : Spells left leftText.toList)
    (hright : Spells right rightText.toList) (steps : List Step) :
    answerAfter config catalog.toSource steps .subtype leftText rightText = .ok (.ok true) ↔
      TypeTree.IsSubtype config catalog.Below config.maxGenericDepth left right := by
  obtain ⟨verdict, hanswer, hiff⟩ := Ideal.answer_subtype catalog.Below hroot hvoid
    config.maxGenericDepth hleft hright
  rw [answerAfter_eq config hbuilt hdepth hiterations, hanswer, ← hiff, Except.ok.injEq,
    Except.ok.injEq]

/-- Every type is found to be a subtype of itself, if its arguments are compared all the way down,
and what is found is chained, if the root does not occur in the middle. -/
theorem subtype_preorder (hbuilt : catalog.Built)
    (hdepth : catalog.known.size < config.maxLoadDepth)
    (hiterations : catalog.edgeCount < config.maxLoadIterations)
    (hroot : '<' ∉ config.rootType.toList) (hvoid : '<' ∉ config.voidType.toList) :
    (∀ ⦃tree : TypeTree⦄ ⦃text text' : String⦄, Spells tree text.toList → Spells tree text'.toList →
      tree.nesting ≤ config.maxGenericDepth → ∀ steps : List Step,
        answerAfter config catalog.toSource steps .subtype text text' = .ok (.ok true)) ∧
    ∀ ⦃left middle right : TypeTree⦄ ⦃leftText middleText middleText' rightText : String⦄,
      Spells left leftText.toList → Spells middle middleText.toList →
      Spells middle middleText'.toList → Spells right rightText.toList →
      (∀ part, Occurs part middle → part.isRoot config = false) →
      ∀ steps steps' steps'' : List Step,
        answerAfter config catalog.toSource steps .subtype leftText middleText = .ok (.ok true) →
        answerAfter config catalog.toSource steps' .subtype middleText' rightText = .ok (.ok true) →
        answerAfter config catalog.toSource steps'' .subtype leftText rightText =
          .ok (.ok true) := by
  constructor
  · intro tree text text' htext htext' hnesting steps
    rw [answerAfter_subtype_iff hbuilt hdepth hiterations hroot hvoid htext htext']
    exact TypeTree.IsSubtype.refl (fun _ => Relation.ReflTransGen.refl) hnesting
  · intro left middle right leftText middleText middleText' rightText hleft hmiddle hmiddle' hright
      hrootless steps steps' steps'' h h'
    rw [answerAfter_subtype_iff hbuilt hdepth hiterations hroot hvoid hleft hmiddle] at h
    rw [answerAfter_subtype_iff hbuilt hdepth hiterations hroot hvoid hmiddle' hright] at h'
    rw [answerAfter_subtype_iff hbuilt hdepth hiterations hroot hvoid hleft hright]
    exact TypeTree.IsSubtype.trans Relation.ReflTransGen.trans hrootless h h'

/-- Three lists, of which each has an argument below that of the next. -/
theorem subtype_preorder_chain :
    let catalog := ((Catalog.declare {} "B" "A").declare "C" "B").declareType "L"
    let config : Config := { maxLoadDepth := 5, maxLoadIterations := 3 }
    let list := TypeName.single 'L' (by decide)
    let left : TypeTree := ⟨list, [⟨.single 'C' (by decide), []⟩]⟩
    let middle : TypeTree := ⟨list, [⟨.single 'B' (by decide), []⟩]⟩
    let right : TypeTree := ⟨list, [⟨.single 'A' (by decide), []⟩]⟩
    let ask := fun steps => answerAfter config catalog.toSource steps .subtype
    catalog.Built ∧ catalog.known.size < config.maxLoadDepth ∧
      catalog.edgeCount < config.maxLoadIterations ∧ Spells left "L< C >".toList ∧
      Spells middle "L< B >".toList ∧ Spells right "L< A >".toList ∧
      middle.nesting ≤ config.maxGenericDepth ∧
      (∀ part, Occurs part middle → part.isRoot config = false) ∧
      ask [] "L< B >" "L< B >" = .ok (.ok true) ∧ ask [] "L< C >" "L< B >" = .ok (.ok true) ∧
      ask [.preload "B"] "L< B >" "L< A >" = .ok (.ok true) ∧
      ask [] "L< C >" "L< A >" = .ok (.ok true) := by
  intro catalog config list left middle right ask
  have hbuilt : catalog.Built :=
    ((Catalog.Built.empty.declare "B" "A").declare "C" "B").declareType "L"
  have hdepth : catalog.known.size < config.maxLoadDepth := by decide +kernel
  have hiterations : catalog.edgeCount < config.maxLoadIterations := by decide +kernel
  have hleft : Spells left "L< C >".toList := TypeTree.spells_one _ _
  have hmiddle : Spells middle "L< B >".toList := TypeTree.spells_one _ _
  have hright : Spells right "L< A >".toList := TypeTree.spells_one _ _
  have hnesting : middle.nesting ≤ config.maxGenericDepth := by decide +kernel
  have hrootless : ∀ part, Occurs part middle → part.isRoot config = false := by
    rintro part (_ | ⟨hmem, hpart⟩)
    · rfl
    · obtain rfl := List.mem_singleton.1 hmem
      rcases hpart with _ | ⟨hmem, -⟩
      · decide +kernel
      · cases hmem
  have hfirst : ask [] "L< C >" "L< B >" = .ok (.ok true) := by decide +kernel
  have hsecond : ask [.preload "B"] "L< B >" "L< A >" = .ok (.ok true) := by decide +kernel
  obtain ⟨hrefl, htrans⟩ := subtype_preorder hbuilt hdepth hiterations (by decide) (by decide)
  exact ⟨hbuilt, hdepth, hiterations, hleft, hmiddle, hright, hnesting, hrootless,
    hrefl hmiddle hmiddle hnesting [], hfirst, hsecond,
    htrans hleft hmiddle hmiddle hright hrootless [] [.preload "B"] [] hfirst hsecond⟩

/-- A chain through the root breaks, and a type whose arguments are not compared is no subtype of
itself. -/
example :
    let catalog := Catalog.declare {} "Object" "B"
    let ask := fun limit => answerAfter { maxGenericDepth := limit } catalog.toSource [] .subtype
    (ask 1 "A" "Object" = .ok (.ok true) ∧ ask 1 "Object" "B" = .ok (.ok true) ∧
      ask 1 "A" "B" = .ok (.ok false)) ∧ ask 0 "A<B>" "A<B>" = .ok (.ok false) := by
  decide +kernel

end NominalSubtyping.Session
