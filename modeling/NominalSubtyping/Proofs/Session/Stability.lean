import NominalSubtyping.Proofs.Query.Bounds
import NominalSubtyping.Proofs.Session.Run
import NominalSubtyping.Source.Script

/-!
# Only a no can be revised

A source may contradict itself, fail or crash, and a limit may cut a load short. Still a session
never takes back a yes, nor a refusal: what a question found in the graph is still there when the
question is put again, and the graph has only grown in the meantime. Of the three kinds of answers a
no is the only one that can change.

## Main results

* `Session.query_leads` : a question gets an answer between the ideal ones before and after it.
* `Session.ideal_of_query`, `Session.query_of_ideal` : answers other than no are ideal from then on,
  and ideal ones are given.
* `Session.answer_stable` : a question is answered again in the same way, if the answer was not a
  no.
-/

namespace NominalSubtyping.Session

open Answer (MayBecome)
open Cache (Tracks Between)

variable {config : Config} {source : Source} {session : Session} {relation : Relation}
  {left right : String}

/-- A question gets an answer between the ideal ones before and after it, unless the source
crashes. -/
theorem query_leads {fit : Cache → Prop} {below : Cache → (sub sup : String) → Prop}
    (ht : Tracks session.source fit below) (hfit : fit session.cache) (relation : Relation)
    (left right : String) :
    Leads session.source fit cache (query relation left right) session fun answer later =>
      Between MayBecome (fun cache => Ideal.answer session.config (below cache)
        session.config.maxGenericDepth relation left right) session.cache answer later.cache := by
  have hlasting := Engine.answer_lasting ht session.config session.config.maxGenericDepth relation
    left right
  have hasked : fit (session.cache.withEvent (.asked (session.queries + 1) relation left right)) :=
    ht.step hfit (.event fun h => (by cases h))
  rcases (Cache.withEngine_leads ht hasked session.config relation left right).cases with
    ⟨answer, later, hanswer, hlater, hextend, hbefore, hafter⟩ |
      ⟨fault, later, hanswer, hlater, hextend, hcrash⟩
  · have hanswered : fit (later.withEvent
        (.answered (session.queries + 1) relation answer.toOption later.graph.size)) :=
      ht.step hlater (.event fun h => (by cases h))
    -- An entry in the journal leaves the graph as it is.
    exact .of_ok (query_eq_of_ok hanswer) hanswered hextend
      ⟨(hlasting hasked (.refl session.cache.graph)).trans hbefore,
        hafter.trans (hlasting hanswered (.refl later.graph))⟩
  · exact .of_error (query_eq_of_error hanswer) hlater hextend hcrash

theorem follows_of_query {answer : Answer} {middle : Session} (hwf : session.cache.graph.WellFormed)
    (hquery : query relation left right session = .ok answer middle) : session.Follows middle := by
  have hfollows := query_follows hwf relation left right
  rwa [finalState_of_ok hquery] at hfollows

/-- An answer other than no is the ideal one over the graph as it is left, and over all later
graphs. -/
theorem ideal_of_query {answer : Answer} {middle later : Session}
    (hwf : session.cache.graph.WellFormed)
    (hquery : query relation left right session = .ok answer middle) (hanswer : answer ≠ .ok false)
    (hlater : middle.Follows later) :
    Ideal.answer later.config later.cache.graph.LiesBelow later.config.maxGenericDepth relation left
      right = answer := by
  have hfirst := query_leads (Cache.tracks_graph session.source) hwf relation left right
  obtain ⟨hmiddle, -, -, hknown⟩ := hfirst.of_eq_ok hquery
  rw [← (follows_of_query hwf hquery).config_eq, ← hlater.config_eq] at hknown
  have hlasting := Engine.answer_lasting (Cache.tracks_graph later.source) later.config
    later.config.maxGenericDepth relation left right (hlater.wellFormed hmiddle)
    (hlater.grows hmiddle).extend
  exact (hknown.trans hlasting).eq_of_ne_no hanswer

/-- A question whose ideal answer over the graph is not no gets that answer, unless the source
crashes. -/
theorem query_of_ideal {answer : Answer} (hwf : session.cache.graph.WellFormed)
    (hideal : Ideal.answer session.config session.cache.graph.LiesBelow
      session.config.maxGenericDepth relation left right = answer) (hanswer : answer ≠ .ok false) :
    (∃ later, query relation left right session = .ok answer later) ∨
      ∃ fault later, query relation left right session = .error fault later ∧
        Cache.Crashed session.source fault later.cache := by
  rcases (query_leads (Cache.tracks_graph session.source) hwf relation left right).cases with
    ⟨answer', later, hquery, -, -, hbefore, -⟩ | ⟨fault, later, hquery, -, -, hcrash⟩
  · subst hideal
    obtain rfl := hbefore.eq_of_ne_no hanswer
    exact Or.inl ⟨later, hquery⟩
  · exact Or.inr ⟨fault, later, hquery, hcrash⟩

/-- A question that is put again later on. -/
theorem query_again {answer : Answer} {middle later : Session}
    (hwf : session.cache.graph.WellFormed)
    (hquery : query relation left right session = .ok answer middle) (hanswer : answer ≠ .ok false)
    (hlater : middle.Follows later) :
    (∃ last, query relation left right later = .ok answer last) ∨
      ∃ fault last, query relation left right later = .error fault last ∧
        Cache.Crashed session.source fault last.cache := by
  have hfollows := (follows_of_query hwf hquery).trans hlater
  rw [← hfollows.source_eq]
  exact query_of_ideal (hfollows.wellFormed hwf) (ideal_of_query hwf hquery hanswer hlater) hanswer

/-- A question that was answered with yes or was refused gets the same answer whenever it is put
again, unless the source crashes under it. -/
theorem answer_stable (hstart : start config source = .ok session) (before between : List Step)
    {answer : Answer} {middle : Session}
    (hquery : query relation left right (session.run before) = .ok answer middle)
    (hanswer : answer ≠ .ok false) :
    (∃ later, query relation left right (middle.run between) = .ok answer later) ∨
      ∃ fault later, query relation left right (middle.run between) = .error fault later ∧
        Cache.Crashed source fault later.cache := by
  have hwf := start_wellFormed hstart
  have hbefore := run_follows hwf before
  have hmiddle := query_follows (hbefore.wellFormed hwf) relation left right
  rw [finalState_of_ok hquery] at hmiddle
  have hsource : (session.run before).source = source :=
    hbefore.source_eq.trans (start_path hstart).2.1
  rw [← hsource]
  exact query_again (hbefore.wellFormed hwf) hquery hanswer
    (run_follows (hmiddle.wellFormed (hbefore.wellFormed hwf)) between)

/-- The first load is cut short, the second one fails, and the third one no longer lists the
edge. -/
theorem answer_stable_contradicted :
    let responses : List Response :=
      [.hierarchy [("A", "B"), ("C", "B")], .backend "gone", .hierarchy []]
    let script : Script := { responses := [("B", responses)] }
    let config : Config := { preloadRoot := false, maxLoadIterations := 2 }
    ∃ session middle, start config script.toSource = .ok session ∧
      query .subtype "A" "B" (session.run []) = .ok (.ok true) middle ∧
      ((∃ later, query .subtype "A" "B" (middle.run [.preload "B", .preload "B"]) =
          .ok (.ok true) later) ∨
        ∃ fault later, query .subtype "A" "B" (middle.run [.preload "B", .preload "B"]) =
            .error fault later ∧ Cache.Crashed script.toSource fault later.cache) := by
  intro responses script config
  have hanswer : answerAfter config script.toSource [] .subtype "A" "B" = .ok (.ok true) := by
    decide +kernel
  obtain ⟨session, middle, hstart, hquery⟩ := exists_of_answerAfter hanswer
  exact ⟨session, middle, hstart, hquery,
    answer_stable hstart [] [.preload "B", .preload "B"] hquery fun h => (by cases h)⟩

/-- A no is taken back: the source fails at first. -/
example :
    let script : Script := { responses := [("B", [.disconnected, .hierarchy [("A", "B")]])] }
    let config : Config := { preloadRoot := false }
    answerAfter config script.toSource [] .subtype "A" "B" = .ok (.ok false) ∧
      answerAfter config script.toSource [.query .subtype "A" "B"] .subtype "A" "B" =
        .ok (.ok true) := by
  decide +kernel

end NominalSubtyping.Session
