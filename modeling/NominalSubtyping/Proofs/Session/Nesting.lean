import NominalSubtyping.Proofs.Session.Transparency

/-!
# What the nesting limit hides

Arguments are compared down to a nesting depth that the configuration sets, and deeper ones count as
unrelated. A session with a higher limit looks further: it may come to a yes, or upon a text that it
has to refuse, where the other session says no. Over a catalog, with limits that leave room for all
that it declares, this is the only way in which the answers differ. Whatever the session with the
lower limit says other than no, the one with the higher limit says too.

## Main results

* `Session.nesting_limit_conservative` : a lower nesting limit does nothing but turn answers into
  no.
-/

namespace NominalSubtyping.Session

variable {config : Config} {catalog : Catalog}

/-- Of two sessions that differ in their nesting limits, the one with the lower limit gives the same
answer as the other one, or it says no, whatever was done in either of them before. -/
theorem nesting_limit_conservative (hbuilt : catalog.Built)
    (hdepth : catalog.known.size < config.maxLoadDepth)
    (hiterations : catalog.edgeCount < config.maxLoadIterations) {lower higher : Nat}
    (hle : lower ≤ higher) (steps steps' : List Step) (relation : Relation) (left right : String) :
    ∃ answer answer',
      answerAfter { config with maxGenericDepth := lower } catalog.toSource steps relation
        left right = .ok answer ∧
      answerAfter { config with maxGenericDepth := higher } catalog.toSource steps' relation left
        right = .ok answer' ∧
      (answer = answer' ∨ answer = .ok false) := by
  have hideal (limit : Nat) (steps : List Step) :
      answerAfter { config with maxGenericDepth := limit } catalog.toSource steps relation
          left right =
        .ok (Ideal.answer config catalog.Below limit relation left right) := by
    rw [answerAfter_eq { config with maxGenericDepth := limit } hbuilt hdepth hiterations,
      Ideal.answer_maxGenericDepth]
  refine ⟨_, _, hideal lower steps, hideal higher steps', ?_⟩
  exact (Ideal.answer_room_mono hle relation left right).symm.imp_left Eq.symm

/-- The higher limit reaches an argument that cannot be read. -/
theorem nesting_limit_conservative_malformed :
    let catalog := Catalog.declare {} "B" "A"
    let config : Config := { maxLoadDepth := 3, maxLoadIterations := 2 }
    let left := "A<B<B<B>x<B>>>"
    let right := "A<A<A<A>>>"
    catalog.Built ∧ catalog.known.size < config.maxLoadDepth ∧
      catalog.edgeCount < config.maxLoadIterations ∧ 1 ≤ 2 ∧
      ∃ answer answer',
        answerAfter { config with maxGenericDepth := 1 } catalog.toSource [.preload "B"]
          .subtype left right = .ok answer ∧
        answerAfter { config with maxGenericDepth := 2 } catalog.toSource [] .subtype left right =
          .ok answer' ∧
        (answer = answer' ∨ answer = .ok false) :=
  have hbuilt : (Catalog.declare {} "B" "A").Built := Catalog.Built.empty.declare "B" "A"
  ⟨hbuilt, by decide +kernel, by decide +kernel, by decide,
    nesting_limit_conservative hbuilt (by decide +kernel) (by decide +kernel) (by decide)
      [.preload "B"] [] .subtype "A<B<B<B>x<B>>>" "A<A<A<A>>>"⟩

/-- Where the lower limit says no, the higher one may say yes, or refuse the question. -/
example :
    let catalog := Catalog.declare {} "B" "A"
    let ask := fun limit => answerAfter { maxGenericDepth := limit } catalog.toSource [] .subtype
    (ask 1 "A<B<B>>" "A<A<A>>" = .ok (.ok false) ∧ ask 2 "A<B<B>>" "A<A<A>>" = .ok (.ok true)) ∧
      ask 1 "A<B<B<B>x<B>>>" "A<A<A<A>>>" = .ok (.ok false) ∧
      ask 2 "A<B<B<B>x<B>>>" "A<A<A<A>>>" = .ok (.error ⟨.unmatched, "B>x<B", 1⟩) := by
  decide +kernel

end NominalSubtyping.Session
