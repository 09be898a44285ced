import NominalSubtyping.Proofs.Cache.History
import NominalSubtyping.Proofs.Query.Lookups
import NominalSubtyping.Proofs.Session.Run
import NominalSubtyping.Source.Catalog

/-!
# Asking twice in one question

One question can set off several loads of the same name. If the first of them loads the type in
full, the others find it complete. If not, the name stays incomplete, and the source is asked for it
again before the question is answered. So within one question a lookup is repeated exactly as long
as it was in vain: when every lookup is answered in full, no name is asked for twice. A subtype
question about two names asks once at most. A common-subtype question about two names asks twice for
each of them if neither is known.

## Main results

* `Session.asked_again_in_vain` : what one question asks for.
-/

namespace NominalSubtyping.Session

open Cache (AsksFor History Load endsLoaded)

variable {config : Config} {source : Source} {session : Session}

/-- A question about two names asks for no more than its comparison does. -/
theorem query_asksFor (hwf : session.cache.graph.WellFormed) (relation : Relation)
    {left right : String} (hleft : '<' ∉ left.toList) (hright : '<' ∉ right.toList) :
    ∃ names, (finalState (query relation left right) session).cache.asked =
        names ++ session.cache.asked ∧
      names.Sublist (Bases.consulted relation left right) := by
  obtain ⟨-, names, hnames, hsublist⟩ :=
    Cache.withEngine_asksFor session.source relation hleft hright
      (session.cache.withEvent (.asked (session.queries + 1) relation left right)) hwf
  refine ⟨names, ?_, hsublist⟩
  cases hanswer : Cache.withEngine session.config
      (Engine.answer session.config session.source relation left right)
      (session.cache.withEvent (.asked (session.queries + 1) relation left right)) with
  | ok answer later =>
    rw [finalState_of_ok hanswer] at hnames
    rw [finalState_of_ok (query_eq_of_ok hanswer)]
    exact hnames
  | error fault later =>
    rw [finalState_of_error hanswer] at hnames
    rw [finalState_of_error (query_eq_of_error hanswer)]
    exact hnames

/-- The loads that one question sets off. The source is asked for those whose types are not
complete; of two lookups of one name, the earlier did not load the type in full; if all of them load
their types in full, no name is asked for twice; and a question about two names asks for no more
than its comparison does, which is the right name for a subtype question, and each name twice for a
common subtype. -/
theorem asked_again_in_vain (hstart : start config source = .ok session) (steps : List Step)
    (relation : Relation) (left right : String) :
    let before := (session.run steps).cache
    let after := (finalState (query relation left right) (session.run steps)).cache
    ∃ loads : List (Load source), History source before loads after ∧
      after.asked = (loads.filter Load.asks).map Load.name ++ before.asked ∧
      (loads.Pairwise fun load older => load.asks = true → older.name = load.name →
        endsLoaded older.outcome = false) ∧
      ((∀ load ∈ loads, load.asks = true → endsLoaded load.outcome = true) →
        ((loads.filter Load.asks).map Load.name).Nodup) ∧
      ('<' ∉ left.toList → '<' ∉ right.toList →
        ((loads.filter Load.asks).map Load.name).Sublist
          (Bases.consulted relation left right)) := by
  intro before after
  have hwf : before.graph.WellFormed :=
    Cache.wellFormed_of_path (run_path hstart steps) (Cache.wellFormed_new _)
  have hpath := (query_follows hwf relation left right).path
  rw [(run_setting hstart steps).2] at hpath
  obtain ⟨loads, hhistory⟩ := Cache.exists_history hpath hwf
  have hasked : after.asked = (loads.filter Load.asks).map Load.name ++ before.asked :=
    (hhistory.accounted hwf).asked_eq
  refine ⟨loads, hhistory, hasked, hhistory.pairwise hwf, hhistory.nodup_asked hwf, ?_⟩
  intro hleft hright
  obtain ⟨names, hnames, hsublist⟩ := query_asksFor hwf relation hleft hright
  rwa [List.append_cancel_right (hasked.symm.trans hnames)]

/-- Neither name is known, and each of them is asked for twice. -/
theorem asked_again_in_vain_unknown :
    let catalog : Catalog := {}
    let config : Config := { preloadRoot := false }
    let relation : Relation := .common false false
    ∃ session, start config catalog.toSource = .ok session ∧
      let after := (finalState (query relation "X" "Y") (session.run [])).cache
      after.asked = ["Y", "X", "X", "Y"] ∧
        ∃ loads : List (Load catalog.toSource),
          History catalog.toSource (session.run []).cache loads after ∧
          (loads.Pairwise fun load older => load.asks = true → older.name = load.name →
            endsLoaded older.outcome = false) ∧
          ((loads.filter Load.asks).map Load.name).Sublist (Bases.consulted relation "X" "Y") := by
  intro catalog config relation
  refine ⟨_, rfl, by decide +kernel, ?_⟩
  have hstart : start config catalog.toSource = .ok _ := rfl
  obtain ⟨loads, hhistory, -, hpairwise, -, hsublist⟩ :=
    asked_again_in_vain hstart [] relation "X" "Y"
  exact ⟨loads, hhistory, hpairwise, hsublist (by decide) (by decide)⟩

end NominalSubtyping.Session
