import NominalSubtyping.Proofs.Query.Spelling
import NominalSubtyping.Proofs.Session.Transparency

/-!
# When the spelling of a question shows

Over a catalog, and with limits that leave room for all that it declares, a question about two texts
has the same answer as the question about their canonical texts, whatever was done in the session
before, as long as the texts are plain. Every text with an argument is plain, however many blanks it
has around its arguments, and so is every name without brackets.

Brackets without arguments are the exception. If they follow a special type, or hold a blank, some
question tells the text from the name in front of them.

## Main results

* `Session.canonical_answer` : plain texts are answered like their canonical texts, and which they
  are.
-/

namespace NominalSubtyping.Session

open AppliedType (Plain)

variable {config : Config} {catalog : Catalog}

/-- A question about plain texts has one answer, whether either of the texts is put in its canonical
form or not. If the special types are named without brackets, then every text is plain that has an
argument or no bracket at all, and a text with brackets around no argument is plain exactly if its
base is not special and its brackets are empty. A text is plain exactly if no question ever tells it
from its canonical form. -/
theorem canonical_answer (hbuilt : catalog.Built)
    (hdepth : catalog.known.size < config.maxLoadDepth)
    (hiterations : catalog.edgeCount < config.maxLoadIterations) :
    (∀ left right leftType rightType, Plain config left leftType → Plain config right rightType →
      ∀ relation, ∃ answer, ∀ (steps : List Step), ∀ left' ∈ [left, leftType.render],
        ∀ right' ∈ [right, rightType.render],
          answerAfter config catalog.toSource steps relation left' right' = .ok answer) ∧
    ('<' ∉ config.rootType.toList → '<' ∉ config.voidType.toList →
      ∀ text type, AppliedType.parse text = .ok type →
        (type.arguments ≠ [] ∨ '<' ∉ text.toList → Plain config text type) ∧
        (type.arguments = [] → '<' ∈ text.toList → (Plain config text type ↔
          config.isRoot type.base = false ∧ config.isVoid type.base = false ∧
            (TypeUse.parse text).map TypeUse.isGeneric = .ok false)) ∧
        (Plain config text type ↔
          ∀ (steps steps' : List Step) (relation : Relation) (other : String),
          answerAfter config catalog.toSource steps relation text other =
              answerAfter config catalog.toSource steps' relation type.render other ∧
            answerAfter config catalog.toSource steps relation other text =
              answerAfter config catalog.toSource steps' relation other type.render)) := by
  have hideal := answerAfter_eq config hbuilt hdepth hiterations
  have hbelow (name : String) : catalog.Below name name := Relation.ReflTransGen.refl
  constructor
  · intro left right leftType rightType hleft hright relation
    have halike {text : String} {type : AppliedType} (h : Plain config text type) :
        ∀ text' ∈ [text, type.render], Ideal.Alike config text text' := by
      simp only [List.forall_mem_cons, List.not_mem_nil, false_imp_iff, implies_true, and_true]
      exact ⟨.refl config text, h.alike⟩
    refine ⟨Ideal.answer config catalog.Below config.maxGenericDepth relation left right, ?_⟩
    intro steps left' hleft' right' hright'
    rw [hideal, Ideal.answer_alike (halike hleft left' hleft') (halike hright right' hright')]
  · intro hroot hvoid text type hparse
    refine ⟨AppliedType.plain_of_arguments hroot hvoid hparse,
      AppliedType.plain_iff_of_nil hroot hvoid hparse, ?_⟩
    rw [Ideal.plain_iff hbelow hroot hvoid hparse config.maxGenericDepth]
    simp only [hideal, Except.ok.injEq, forall_const]

/-- Texts with blanks around their arguments and after their brackets, and a text with nothing but a
blank in its brackets, which some question tells from its canonical form. -/
theorem canonical_answer_blanks :
    let catalog := Catalog.declare {} "B" "A"
    let config : Config := { maxLoadDepth := 3, maxLoadIterations := 2 }
    let left : AppliedType := ⟨"A", ["B", "A<B>"]⟩
    let right : AppliedType := ⟨"A", ["A", "A"]⟩
    let bare : AppliedType := ⟨"B", []⟩
    catalog.Built ∧ catalog.known.size < config.maxLoadDepth ∧
      catalog.edgeCount < config.maxLoadIterations ∧
      Plain config "A< B ,A<B>> " left ∧ Plain config "A<A , A >" right ∧
      (∃ answer, ∀ (steps : List Step), ∀ left' ∈ ["A< B ,A<B>> ", left.render],
        ∀ right' ∈ ["A<A , A >", right.render],
          answerAfter config catalog.toSource steps .subtype left' right' = .ok answer) ∧
      '<' ∉ config.rootType.toList ∧ '<' ∉ config.voidType.toList ∧
      AppliedType.parse "B< >" = .ok bare ∧ ¬ Plain config "B< >" bare ∧
      ¬ ∀ (steps steps' : List Step) (relation : Relation) (other : String),
        answerAfter config catalog.toSource steps relation "B< >" other =
            answerAfter config catalog.toSource steps' relation bare.render other ∧
          answerAfter config catalog.toSource steps relation other "B< >" =
            answerAfter config catalog.toSource steps' relation other bare.render := by
  intro catalog config left right bare
  have hbuilt : catalog.Built := Catalog.Built.empty.declare "B" "A"
  have hdepth : catalog.known.size < config.maxLoadDepth := by decide +kernel
  have hiterations : catalog.edgeCount < config.maxLoadIterations := by decide +kernel
  have hleft : Plain config "A< B ,A<B>> " left :=
    ⟨by decide +kernel, by decide +kernel, by decide +kernel, by decide +kernel⟩
  have hright : Plain config "A<A , A >" right :=
    ⟨by decide +kernel, by decide +kernel, by decide +kernel, by decide +kernel⟩
  have hroot : '<' ∉ config.rootType.toList := by decide +kernel
  have hvoid : '<' ∉ config.voidType.toList := by decide +kernel
  have hparse : AppliedType.parse "B< >" = .ok bare := by decide +kernel
  have hbare : ¬ Plain config "B< >" bare := by
    intro hplain
    have hgeneric : (TypeUse.parse "B< >").map TypeUse.isGeneric = .ok true := by decide +kernel
    cases hgeneric.symm.trans (hplain.raw rfl)
  obtain ⟨hanswer, hexact⟩ := canonical_answer hbuilt hdepth hiterations
  exact ⟨hbuilt, hdepth, hiterations, hleft, hright, hanswer _ _ _ _ hleft hright .subtype, hroot,
    hvoid, hparse, hbare, fun hsame => hbare ((hexact hroot hvoid _ _ hparse).2.2.2 hsame)⟩

/-- Blanks between the brackets keep a type from being raw, and brackets keep the root from being
recognized. -/
example :
    let ask := answerAfter {} (Catalog.declareType {} "P").toSource []
    (ask (.common false false) "P< >" "P<A>" = .ok (.ok false) ∧
      ask (.common false false) "P" "P<A>" = .ok (.ok true)) ∧
    (ask .subtype "P" "P< >" = .ok (.ok false) ∧ ask .subtype "P" "P" = .ok (.ok true)) ∧
    ask .subtype "P" "Object<>" = .ok (.ok false) ∧ ask .subtype "P" "Object" = .ok (.ok true) := by
  decide +kernel

end NominalSubtyping.Session
