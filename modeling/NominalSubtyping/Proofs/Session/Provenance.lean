import NominalSubtyping.Proofs.Query.Trees
import NominalSubtyping.Proofs.Session.Completeness
import NominalSubtyping.Proofs.Session.Stability

/-!
# Where relations come from

A session invents nothing. Each edge of its graph is *founded*: it is a widening of primitive types,
or a snapshot that the source returned to this session lists it below a type to which the snapshot
leads down from the name that was asked for. Snapshots that were taken over in part, lookups that
failed and crashes of the source make no difference to this. A yes to a subtype question about two
names therefore rests on a chain of founded edges.

## Main definitions

* `Cache.Founded` : an edge is a widening or was reported.

## Main results

* `Ideal.answer_subtype_raw` : the ideal answer to the subtype question about texts without
  brackets.
* `Session.relations_founded` : edges are founded, and so are subtype relations.
-/

open Relation (ReflTransGen)

namespace NominalSubtyping

/-! ### Texts without brackets -/

/-- The ideal answer to the subtype question about texts without brackets. -/
theorem Ideal.answer_subtype_raw {config : Config} {below : (sub sup : String) → Prop}
    {sub sup : String} (hsub : '<' ∉ sub.toList) (hsup : '<' ∉ sup.toList) (room : Nat) :
    Decides (answer config below room .subtype sub sup) (IsSubtype config below sub sup) := by
  have hlevel (descend : Relation → List (String × String) → Answer) :
      Decides (answerWith config below descend .subtype sub sup)
        (IsSubtype config below sub sup) := by
    rw [answerWith, IsSubtype]
    cases config.verdict? .subtype sub sup with
    | some verdict => exact decides_ok Iff.rfl
    | none =>
      rw [Engine.readBoth_eq_ok_iff.2 ⟨TypeUse.parse_raw hsub, TypeUse.parse_raw hsup⟩]
      dsimp only
      rw [← related_subtype_iff config below]
      -- A raw supertype admits all arguments, so the base types decide.
      cases related config below .subtype sub sup with
      | true => exact decides_ok Iff.rfl
      | false => exact decides_ok Iff.rfl
  cases room with
  | zero => exact hlevel _
  | succ room => exact hlevel _

/-! ### Founded edges -/

namespace Cache

variable {source : Source} {cache : Cache}

/-- The edge is a widening, or the source reported it. -/
def Founded (source : Source) (cache : Cache) (sub sup : String) : Prop :=
  Primitive.Widens sub sup ∨ Lists source cache sup sub

/-- Whatever is stored of an edge on either of its nodes is founded. -/
theorem Honest.founded (h : Honest source cache) (hwf : cache.graph.WellFormed)
    {supId subId : NodeId}
    (hstored : subId ∈ cache.graph.subtypesOf supId ∨ supId ∈ cache.graph.supertypesOf subId) :
    ∃ sup sub, cache.graph.nameOf? supId = some sup ∧ cache.graph.nameOf? subId = some sub ∧
      Founded source cache sub sup := by
  have hmem : subId ∈ cache.graph.subtypesOf supId :=
    hstored.elim (fun h => h) (hwf.symmetric supId subId).2
  obtain ⟨hsup, hsub⟩ := hwf.lt_size_of_mem hmem
  obtain ⟨sup, hsup⟩ := TypeGraph.WellFormed.exists_name hsup
  obtain ⟨sub, hsub⟩ := TypeGraph.WellFormed.exists_name hsub
  exact ⟨sup, sub, hsup, hsub, h.edge
    ⟨supId, subId, (hwf.lookup_iff sup supId).2 hsup, (hwf.lookup_iff sub subId).2 hsub, hmem⟩⟩

/-- Chains of edges are chains of founded edges. -/
theorem Honest.founded_of_liesBelow (h : Honest source cache) {sub sup : String}
    (hb : cache.graph.LiesBelow sub sup) : ReflTransGen (Founded source cache) sub sup :=
  ReflTransGen.mono (fun _ _ he => h.edge he) _ _ hb

end Cache

namespace Session

variable {config : Config} {source : Source} {session : Session}

/-- In every state of a session the stored edges are founded. A yes to the subtype question about
two texts without brackets, the second of which is not the root, rests on a chain of founded
edges. -/
theorem relations_founded (hstart : start config source = .ok session) (steps : List Step) :
    let cache := (session.run steps).cache
    (∀ supId subId,
        subId ∈ cache.graph.subtypesOf supId ∨ supId ∈ cache.graph.supertypesOf subId →
        ∃ sup sub, cache.graph.nameOf? supId = some sup ∧ cache.graph.nameOf? subId = some sub ∧
          Cache.Founded source cache sub sup) ∧
      ∀ sub sup later, '<' ∉ sub.toList → '<' ∉ sup.toList → config.isRoot sup = false →
        query .subtype sub sup (session.run steps) = .ok (.ok true) later →
        ReflTransGen (Cache.Founded source later.cache) sub sup := by
  intro cache
  have hhonest := run_honest hstart steps
  have hwf := hhonest.wellFormed
  refine ⟨fun supId subId hstored => hhonest.founded hwf hstored, ?_⟩
  intro sub sup later hsub hsup hroot hquery
  have hconfig : (session.run steps).config = config :=
    (run_follows (start_wellFormed hstart) steps).config_eq.trans (start_path hstart).1
  have hleads := query_leads (Cache.tracks_graph (session.run steps).source) hwf .subtype sub sup
  obtain ⟨-, -, -, hafter⟩ := hleads.of_eq_ok hquery
  have hideal := hafter.eq_of_ne_no fun h => (by cases h)
  obtain ⟨verdict, hanswer, hiff⟩ := Ideal.answer_subtype_raw hsub hsup _
  have hsubtype := hiff.1 (Except.ok.inj (hanswer.symm.trans hideal))
  have hbelow : later.cache.graph.LiesBelow sub sup := by
    refine (hsubtype.root_or_below fun name => ReflTransGen.refl).resolve_left ?_
    rw [hconfig, hroot]
    exact Bool.false_ne_true
  have hlater := run_honest hstart (steps ++ [.query .subtype sub sup])
  rw [run_query hquery] at hlater
  exact hlater.founded_of_liesBelow hbelow

/-- A chain of two reported edges, after a crash of the source. -/
theorem relations_founded_chain :
    let script : Script :=
      { responses := [("B", [.hierarchy [("M", "B"), ("A", "M")]]), ("X", [.crash "lost"])] }
    let config : Config := { preloadRoot := false }
    ∃ session later, start config script.toSource = .ok session ∧
      query .subtype "A" "B" (session.run [.preload "X"]) = .ok (.ok true) later ∧
      ReflTransGen (Cache.Founded script.toSource later.cache) "A" "B" := by
  intro script config
  have hanswer : answerAfter config script.toSource [.preload "X"] .subtype "A" "B" =
      .ok (.ok true) := by
    decide +kernel
  obtain ⟨session, later, hstart, hquery⟩ := exists_of_answerAfter hanswer
  exact ⟨session, later, hstart, hquery, (relations_founded hstart [.preload "X"]).2 "A" "B" later
    (by decide) (by decide) (by decide +kernel) hquery⟩

end Session

end NominalSubtyping
