import NominalSubtyping.Proofs.Cache.History
import NominalSubtyping.Proofs.Session.Run
import NominalSubtyping.Source.Script

/-!
# The traffic of a session

Loads are set off from several places: when a session begins, ahead of a question, by a question for
either of its types and for each pair of nested arguments. Whichever they are and however they end,
the figures of a session account for them. The source is asked once for each load of a type that is
not complete, and for no other load; a lookup fails, or its reply is taken over in full or in part,
or the source crashes; a failure is a warning in the journal. A type is loaded in full once at most,
and the types that were are complete nodes besides the primitive ones.

## Main results

* `Session.traffic_accounted` : the figures of a session account for its loads.
-/

namespace NominalSubtyping.Session

open Cache (History Load endsFailed endsLoaded endsTruncated endsCrashed)

variable {config : Config} {source : Source} {session : Session}

/-- Every state of a session has a history of loads, and at every point of every history: the names
that the source was asked for are those of the loads whose types were not complete; no type was
loaded in full twice; the number of lookups is the number of names asked for, and is made up of the
failures, the loads in full, the loads cut short and the crashes; the failures are the warnings in
the journal; and besides the eight primitive types there are at least as many complete nodes as
loads in full. -/
theorem traffic_accounted (hstart : start config source = .ok session) (steps : List Step) :
    (∃ loads, History source (.new config.loadLimits) loads (session.run steps).cache) ∧
      ∀ (loads : List (Load source)) (cache : Cache),
        History source (.new config.loadLimits) loads cache →
        cache.asked = (loads.filter fun load => !load.before.graph.isComplete load.name).map
            (·.name) ∧
          ((loads.filter (endsLoaded ·.outcome)).map (·.name)).Nodup ∧
          cache.stats.lookups = cache.asked.length ∧
          cache.stats.lookups = cache.stats.failures + loads.countP (endsLoaded ·.outcome) +
            loads.countP (endsTruncated ·.outcome) + loads.countP (endsCrashed ·.outcome) ∧
          cache.stats.failures = cache.journal.countP Event.isFailure ∧
          loads.countP (endsLoaded ·.outcome) + 8 ≤ cache.stats.completeNodes := by
  have hwf := Cache.wellFormed_new config.loadLimits
  refine ⟨Cache.exists_history (run_path hstart steps) hwf, fun loads cache hhistory => ?_⟩
  have haccounted := hhistory.accounted hwf
  have hasked : cache.asked = (loads.filter Load.asks).map Load.name :=
    haccounted.asked_eq.trans (List.append_nil _)
  have hlookups : cache.stats.lookups = loads.countP Load.asks :=
    haccounted.lookups_eq.trans (Nat.zero_add _)
  have hfailures : cache.stats.failures = loads.countP (endsFailed ·.outcome) :=
    haccounted.failures_eq.trans (Nat.zero_add _)
  have hwarnings : cache.journal.countP Event.isFailure = loads.countP (endsFailed ·.outcome) :=
    haccounted.warnings_eq.trans (Nat.zero_add _)
  refine ⟨hasked, hhistory.nodup_loaded hwf, ?_, ?_, hfailures.trans hwarnings.symm,
    hhistory.loaded_add_primitives_le⟩
  · rw [hlookups, hasked, List.length_map, List.countP_eq_length_filter]
  · rw [hlookups, hfailures]
    exact haccounted.ends_eq

/-- All five ways in which a load can end, and a load of a type that is complete. -/
theorem traffic_accounted_mixed :
    let script : Script :=
      { responses := [("A", [.hierarchy [("B", "A")]]), ("C", [.disconnected, .crash "lost"]),
          ("D", [.hierarchy [("E", "D"), ("F", "D")]])] }
    let config : Config := { preloadRoot := false, maxLoadIterations := 2 }
    let steps : List Step := [.query .subtype "B" "A", .query (.common false true) "X" "A",
      .preload "C", .preload "C", .preload "D"]
    ∃ session, start config script.toSource = .ok session ∧
      let cache := (session.run steps).cache
      cache.stats = ⟨15, 11, 11, 5, 2⟩ ∧ cache.asked = ["D", "C", "C", "X", "A"] ∧
        cache.stats.lookups = cache.asked.length ∧
        cache.stats.failures = cache.journal.countP Event.isFailure ∧
        ∃ loads : List (Load script.toSource),
          History script.toSource (.new config.loadLimits) loads cache ∧
          cache.stats.lookups = cache.stats.failures + loads.countP (endsLoaded ·.outcome) +
            loads.countP (endsTruncated ·.outcome) + loads.countP (endsCrashed ·.outcome) ∧
          loads.countP (endsLoaded ·.outcome) + 8 ≤ cache.stats.completeNodes := by
  intro script config steps
  refine ⟨_, rfl, ?_⟩
  have hstart : start config script.toSource = .ok _ := rfl
  obtain ⟨⟨loads, hhistory⟩, htraffic⟩ := traffic_accounted hstart steps
  obtain ⟨-, -, hlookups, hends, hfailures, hcomplete⟩ := htraffic loads _ hhistory
  exact ⟨by decide +kernel, by decide +kernel, hlookups, hfailures, loads, hhistory,
    hends, hcomplete⟩

end NominalSubtyping.Session
