import NominalSubtyping.Proofs.Query.Entailment
import NominalSubtyping.Proofs.Session.Stability

/-!
# A subtype is a common subtype

A session that has once found a type to be a subtype of another one will find a common subtype of
the two, however often and in whatever order they are given, and whatever it is told in between. The
source need not be reliable: it may fail, or contradict itself, or be cut short by a limit. What
made the first answer a yes is in the graph, and the graph only grows; texts that the first question
had no need to read are not read by the second one either. The void type is left out: it is a
subtype of itself, and nothing is a common subtype of it and itself.

## Main definitions

* `Session.YesUnlessCrashed` : a question gets a yes, unless the source crashes under it.

## Main results

* `Session.subtype_entails_common` : after a yes to the subtype question there is one to the
  common-subtype question, for good.
-/

open Relation (ReflTransGen)

namespace NominalSubtyping.Session

open TypeUse (Avoids)

variable {config : Config} {source : Source} {session : Session} {left right : String}

/-- The question is answered with yes, unless the source crashes under it. -/
def YesUnlessCrashed (relation : Relation) (left right : String) (session : Session) : Prop :=
  (∃ later, query relation left right session = .ok (.ok true) later) ∨
    ∃ fault later, query relation left right session = .error fault later ∧
      Cache.Crashed session.source fault later.cache

/-- Where the subtype question has its yes in the graph, both common-subtype questions get
theirs. -/
theorem common_of_ideal_subtype (hwf : session.cache.graph.WellFormed)
    (hideal : Ideal.answer session.config session.cache.graph.LiesBelow
      session.config.maxGenericDepth .subtype left right = .ok true)
    (hleft : Avoids session.config.voidType left) (hright : Avoids session.config.voidType right)
    (skipForward skipBackward : Bool) :
    YesUnlessCrashed (.common skipForward skipBackward) left right session ∧
      YesUnlessCrashed (.common skipForward skipBackward) right left session := by
  have hrefl (name : String) : session.cache.graph.LiesBelow name name := ReflTransGen.refl
  have hyes : (.ok true : Answer) ≠ .ok false := fun h => (by cases h)
  exact ⟨query_of_ideal hwf (Ideal.answer_common_of_subtype skipForward skipBackward hrefl
      session.config.maxGenericDepth hleft hright hideal) hyes,
    query_of_ideal hwf (Ideal.answer_common_swap_of_subtype skipForward skipBackward hrefl
      session.config.maxGenericDepth hleft hright hideal) hyes⟩

/-- Once a type was found to be a subtype of another one, every later common-subtype question about
the two is answered with yes, either way round and whatever tests are skipped, unless the source
crashes under it. The void type must not come up in either type. -/
theorem subtype_entails_common (hstart : start config source = .ok session)
    (before between : List Step) {middle : Session}
    (hquery : query .subtype left right (session.run before) = .ok (.ok true) middle)
    (hleft : Avoids config.voidType left) (hright : Avoids config.voidType right)
    (skipForward skipBackward : Bool) :
    YesUnlessCrashed (.common skipForward skipBackward) left right (middle.run between) ∧
      YesUnlessCrashed (.common skipForward skipBackward) right left (middle.run between) := by
  have hbefore := run_follows (start_wellFormed hstart) before
  have hwf := hbefore.wellFormed (start_wellFormed hstart)
  have hmiddle := follows_of_query hwf hquery
  have hbetween := run_follows (hmiddle.wellFormed hwf) between
  have hconfig : (middle.run between).config = config :=
    (hmiddle.trans hbetween).config_eq.trans (run_setting hstart before).1
  rw [← hconfig] at hleft hright
  exact common_of_ideal_subtype (hbetween.wellFormed (hmiddle.wellFormed hwf))
    (ideal_of_query hwf hquery (fun h => (by cases h)) hbetween) hleft hright
    skipForward skipBackward

/-- The first load is cut short, the second one fails, and the third one no longer lists the edge.
The argument cannot be read, and need not be. -/
theorem subtype_entails_common_contradicted :
    let responses : List Response :=
      [.hierarchy [("A", "B"), ("C", "B")], .backend "gone", .hierarchy []]
    let script : Script := { responses := [("B", responses)] }
    let config : Config := { preloadRoot := false, maxLoadIterations := 2 }
    Avoids config.voidType "A<C<>" ∧ Avoids config.voidType "B" ∧
      ∃ session middle, start config script.toSource = .ok session ∧
        query .subtype "A<C<>" "B" (session.run []) = .ok (.ok true) middle ∧
        YesUnlessCrashed (.common true false) "A<C<>" "B"
          (middle.run [.preload "B", .preload "B"]) ∧
        YesUnlessCrashed (.common true false) "B" "A<C<>"
          (middle.run [.preload "B", .preload "B"]) := by
  intro responses script config
  have hread : TypeUse.parse "A<C<>" = .ok ⟨"A", "C<"⟩ := by decide +kernel
  have hrefused : TypeUse.arguments ⟨"A", "C<"⟩ = .error ⟨.unclosed, "C<", 1⟩ := by decide +kernel
  have hleft : Avoids config.voidType "A<C<>" := .of_refused (by decide) hread hrefused
  have hright : Avoids config.voidType "B" := .of_raw (by decide) (by decide)
  have hanswer : answerAfter config script.toSource [] .subtype "A<C<>" "B" = .ok (.ok true) := by
    decide +kernel
  obtain ⟨session, middle, hstart, hquery⟩ := exists_of_answerAfter hanswer
  exact ⟨hleft, hright, session, middle, hstart, hquery,
    subtype_entails_common hstart [] [.preload "B", .preload "B"] hquery hleft hright true false⟩

/-- The void type has no subtype in common with itself, not even as an argument. -/
example :
    let ask := fun relation => answerAfter {} (Script.toSource {}) [] relation "A<void>" "A<void>"
    ask .subtype = .ok (.ok true) ∧ ask (.common false false) = .ok (.ok false) := by
  decide +kernel

end NominalSubtyping.Session
