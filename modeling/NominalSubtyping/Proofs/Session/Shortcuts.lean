import NominalSubtyping.Proofs.Session.Transparency

/-!
# Skipped tests do not show

A common-subtype question first tests whether one of the two base types lies below the other one,
going upwards after what lies below one of them has been loaded. Only if neither does, what lies
below both is compared. A caller may have either test skipped, so that the comparison is all that is
left.

Over a catalog, with limits that leave room for all that it declares, every choice comes to the same
answer: what a test finds is something below both types. The root is the exception. Every type
counts as its subtype, but no edge says so, and nothing but a test can tell.

## Main results

* `Session.common_skip_irrelevant` : apart from the root, the flags do not change the answer.
-/

namespace NominalSubtyping.Session

variable {config : Config} {catalog : Catalog} {left right : String}

/-- A common-subtype question about types whose bases are not the root has one answer, whatever
tests are skipped and whatever was done in the session before. -/
theorem common_skip_irrelevant (hbuilt : catalog.Built)
    (hdepth : catalog.known.size < config.maxLoadDepth)
    (hiterations : catalog.edgeCount < config.maxLoadIterations)
    (hleft : ∀ use, TypeUse.parse left = .ok use → config.isRoot use.base = false)
    (hright : ∀ use, TypeUse.parse right = .ok use → config.isRoot use.base = false) :
    ∃ answer, ∀ (steps : List Step) (skipForward skipBackward : Bool),
      answerAfter config catalog.toSource steps (.common skipForward skipBackward) left right =
        .ok answer := by
  refine ⟨Ideal.answer config catalog.Below config.maxGenericDepth (.common false false)
    left right, ?_⟩
  intro steps skipForward skipBackward
  rw [answerAfter_eq config hbuilt hdepth hiterations,
    Ideal.answer_common_skip config catalog.Below hleft hright]

/-- Two types that are each below the other, with the void type as the base of one of them, and an
argument that cannot be read. -/
theorem common_skip_irrelevant_void :
    let catalog := ((Catalog.declare {} "void" "B").declare "B" "void").declare "C" "B"
    let config : Config := { maxLoadDepth := 4, maxLoadIterations := 4 }
    catalog.Built ∧ catalog.known.size < config.maxLoadDepth ∧
      catalog.edgeCount < config.maxLoadIterations ∧
      TypeUse.parse "void<C, B<>" = .ok ⟨"void", "C, B<"⟩ ∧ config.isRoot "void" = false ∧
      TypeUse.parse "B<C>" = .ok ⟨"B", "C"⟩ ∧ config.isRoot "B" = false ∧
      ∃ answer, ∀ (steps : List Step) (skipForward skipBackward : Bool),
        answerAfter config catalog.toSource steps (.common skipForward skipBackward) "void<C, B<>"
          "B<C>" = .ok answer := by
  intro catalog config
  have hbuilt : catalog.Built :=
    ((Catalog.Built.empty.declare "void" "B").declare "B" "void").declare "C" "B"
  have hleft : TypeUse.parse "void<C, B<>" = .ok ⟨"void", "C, B<"⟩ := by decide +kernel
  have hright : TypeUse.parse "B<C>" = .ok ⟨"B", "C"⟩ := by decide +kernel
  have hvoid : config.isRoot "void" = false := by decide +kernel
  have hbase : config.isRoot "B" = false := by decide +kernel
  refine ⟨hbuilt, by decide +kernel, by decide +kernel, hleft, hvoid, hright, hbase,
    common_skip_irrelevant hbuilt (by decide +kernel) (by decide +kernel) ?_ ?_⟩
  · intro use huse
    obtain rfl := Except.ok.inj (hleft.symm.trans huse)
    exact hvoid
  · intro use huse
    obtain rfl := Except.ok.inj (hright.symm.trans huse)
    exact hbase

/-- Only a test finds that a type is below the root. -/
example :
    let catalog := Catalog.declareType {} "B"
    let ask := fun skip =>
      answerAfter {} catalog.toSource [] (.common skip skip) "B<A>" "java.lang.Object<A>"
    ask false = .ok (.ok true) ∧ ask true = .ok (.ok false) := by
  decide +kernel

end NominalSubtyping.Session
