import NominalSubtyping.Proofs.Query.Symmetry
import NominalSubtyping.Proofs.Session.Transparency

/-!
# A session does not tell the sides of a common subtype apart

The two directions of a common-subtype question are tested one after the other, and each of them may
load what lies below its types, so a question and the question with its sides exchanged take a
session through different states. Over a catalog, with limits that leave room for all that it
declares, their answers agree nevertheless: whatever was done before, they are the same verdict, or
both are refused.

## Main results

* `Session.common_symmetric` : the sides of a common-subtype question may change places.
-/

namespace NominalSubtyping.Session

variable {config : Config} {catalog : Catalog}

/-- The sides of a common-subtype question may change places, together with the flags that skip a
direction. Both questions are answered after any steps, with one verdict or with two refusals. -/
theorem common_symmetric (hbuilt : catalog.Built)
    (hdepth : catalog.known.size < config.maxLoadDepth)
    (hiterations : catalog.edgeCount < config.maxLoadIterations) (steps steps' : List Step)
    (skipForward skipBackward : Bool) (left right : String) :
    ∃ answer answer',
      answerAfter config catalog.toSource steps (.common skipForward skipBackward) left right =
        .ok answer ∧
      answerAfter config catalog.toSource steps' (.common skipBackward skipForward) right left =
        .ok answer' ∧
      Answer.Agrees answer answer' := by
  have hideal := answerAfter_eq config hbuilt hdepth hiterations
  exact ⟨_, _, hideal steps _ left right, hideal steps' _ right left,
    Ideal.answer_common_swap skipForward skipBackward config.maxGenericDepth left right⟩

/-- Two types that are each below the other. The second argument of either side is malformed, in
different ways, after a first argument that has to be compared through the cycle. -/
theorem common_symmetric_malformed :
    let catalog := ((Catalog.declare {} "A" "B").declare "B" "A").declare "C" "B"
    let config : Config := { maxLoadDepth := 4, maxLoadIterations := 4 }
    let left := "A<C, B<A>x<A>>"
    let right := "B<A, A<AB>y<C>>"
    catalog.Built ∧ catalog.known.size < config.maxLoadDepth ∧
      catalog.edgeCount < config.maxLoadIterations ∧
      ∃ answer answer',
        answerAfter config catalog.toSource [.preload "C"] (.common true false) left right =
          .ok answer ∧
        answerAfter config catalog.toSource [.preload "A"] (.common false true) right left =
          .ok answer' ∧
        Answer.Agrees answer answer' :=
  have hbuilt : (((Catalog.declare {} "A" "B").declare "B" "A").declare "C" "B").Built :=
    ((Catalog.Built.empty.declare "A" "B").declare "B" "A").declare "C" "B"
  ⟨hbuilt, by decide +kernel, by decide +kernel,
    common_symmetric hbuilt (by decide +kernel) (by decide +kernel) [.preload "C"] [.preload "A"]
      true false "A<C, B<A>x<A>>" "B<A, A<AB>y<C>>"⟩

/-- Agreeing answers need not be the same: the side that comes first is the one that is refused. -/
example :
    let catalog := (Catalog.declare {} "A" "B").declare "B" "A"
    let config : Config := { preloadRoot := false }
    let ask := answerAfter config catalog.toSource [] (.common false false)
    (ask "A<B<>" "B<A>>" = .ok (.error ⟨.unclosed, "B<", 1⟩)) ∧
      ask "B<A>>" "A<B<>" = .ok (.error ⟨.unmatched, "A>", 1⟩) := by
  decide +kernel

end NominalSubtyping.Session
