import NominalSubtyping.Proofs.Cache.Frozen
import NominalSubtyping.Proofs.Query.Raw
import NominalSubtyping.Proofs.Session.Run
import NominalSubtyping.Source.Script

/-!
# What a session cannot change

Once a node is complete, its direct subtypes stay as they are for the rest of the session. The
primitive types are complete when a session begins, so nothing that a source says is ever added
below them, and it is never asked about them. Whether a name is a subtype of a primitive type is
therefore settled by the widenings alone, in every session, and a question about it is answered even
by a session whose source crashes at every lookup.

## Main results

* `Session.run_rooted` : in a session the hierarchy of the primitive types stays as it was.
* `Session.frozen_below_complete` : the direct subtypes of complete nodes and the hierarchy of the
  primitive types do not change.
-/

open Relation (ReflTransGen)

namespace NominalSubtyping

theorem Primitive.bracket_notMem_name (type : Primitive) : '<' ∉ type.name.toList := by
  cases type <;> decide

/-- Names that are not special are left to the hierarchy. -/
theorem Config.verdict?_subtype_eq_none {config : Config} {sub sup : String}
    (hroot : config.isRoot sup = false) (hsub : config.isVoid sub = false)
    (hsup : config.isVoid sup = false) : config.verdict? .subtype sub sup = none := by
  simp [verdict?, hroot, hsub, hsup]

namespace Session

variable {config : Config} {source : Source} {session : Session}

/-- In a session the hierarchy of the primitive types stays as it was. -/
theorem run_rooted (hstart : start config source = .ok session) (steps : List Step) :
    (session.run steps).cache.graph.WellFormed ∧ (session.run steps).cache.Rooted := by
  have hpath := run_path hstart steps
  exact ⟨Cache.wellFormed_of_path hpath (Cache.wellFormed_new _), Cache.rooted_of_path hpath⟩

/-- A subtype question about a name and a complete name, neither of which is special, is answered
from the graph. -/
theorem query_subtype_of_isComplete (hwf : session.cache.graph.WellFormed) {sub sup : String}
    (hc : session.cache.graph.isComplete sup = true)
    (hverdict : session.config.verdict? .subtype sub sup = none) (hsub : '<' ∉ sub.toList)
    (hsup : '<' ∉ sup.toList) :
    ∃ verdict later, query .subtype sub sup session = .ok (.ok verdict) later ∧
      (verdict = true ↔ session.cache.graph.LiesBelow sub sup) := by
  have hasked : (session.cache.withEvent
      (.asked (session.queries + 1) .subtype sub sup)).graph.WellFormed := hwf
  obtain ⟨verdict, later, hrelated, hiff⟩ := Bases.related_of_isComplete hasked hc session.config
    session.source sub sup sub
  exact ⟨verdict, _, query_eq_of_ok
    ((Cache.withEngine_raw hverdict hsub hsup _).trans (bind_eq_of_ok hrelated)), hiff⟩

/-- Whatever is done in the rest of a session, the direct subtypes of a complete node stay as they
are. Below a primitive type there is exactly what can be widened to it, and the source is never
asked for a primitive type. A question whether a name is a subtype of a primitive type, neither
being special, is answered by the widenings. -/
theorem frozen_below_complete (hstart : start config source = .ok session) (steps : List Step) :
    let cache := (session.run steps).cache
    (∀ (more : List Step) (id : NodeId), cache.graph.completeAt id = true →
        (session.run (steps ++ more)).cache.graph.subtypesOf id = cache.graph.subtypesOf id) ∧
      ∀ type : Primitive,
        (∃ names, cache.graph.subtypeNames type.name = .ok names ∧
          ∀ sub, sub ∈ names ↔ ReflTransGen Primitive.Widens sub type.name) ∧
        type.name ∉ cache.asked ∧
        ∀ sub : String, config.isRoot type.name = false → config.isVoid type.name = false →
          '<' ∉ sub.toList → config.isVoid sub = false →
          ∃ verdict later, query .subtype sub type.name (session.run steps) =
              .ok (.ok verdict) later ∧
            (verdict = true ↔
              isPrimitive sub = true ∧ ReflTransGen Primitive.Widens sub type.name) := by
  intro cache
  obtain ⟨hwf, hrooted⟩ := run_rooted hstart steps
  refine ⟨fun more id hc => ?_, fun type => ?_⟩
  · rw [run_append]
    exact (Cache.freezes_of_path (run_follows hwf more).path hwf).subtypesOf_eq hc
  have hprimitive := type.isPrimitive_name
  have hcomplete := hrooted.isComplete hprimitive
  refine ⟨?_, ?_, fun sub hroot hvoid hplain hsub => ?_⟩
  · obtain ⟨id, hid, -⟩ := TypeGraph.isComplete_eq_true_iff.1 hcomplete
    obtain ⟨names, hnames⟩ := TypeGraph.subtypeNames_eq hwf type.name
    refine ⟨names, hnames, fun sub => ?_⟩
    rw [TypeGraph.mem_subtypeNames hwf hid hnames, hrooted.liesBelow_iff hwf hprimitive]
  · intro hasked
    exact Bool.false_ne_true ((hrooted.asked _ hasked).symm.trans hprimitive)
  · have hverdict := Config.verdict?_subtype_eq_none hroot hsub hvoid
    rw [← (run_setting hstart steps).1] at hverdict
    obtain ⟨verdict, later, hquery, hiff⟩ := query_subtype_of_isComplete hwf hcomplete hverdict
      hplain type.bracket_notMem_name
    refine ⟨verdict, later, hquery, ?_⟩
    rw [hiff, hrooted.liesBelow_iff hwf hprimitive]
    exact ⟨fun hw => ⟨Primitive.isPrimitive_of_widens hw hprimitive, hw⟩, And.right⟩

/-- A source that places primitive types above, below and in a cycle with `A`, and crashes when it
is asked again. -/
theorem frozen_below_complete_reported :
    let edges := [("int", "A"), ("A", "int"), ("A", "boolean"), ("int", "char"), ("char", "A")]
    let script : Script := { responses := [("A", [.hierarchy edges])], otherwise := .crash "lost" }
    let config : Config := { preloadRoot := false }
    let steps : List Step := [.preload "A", .preload "int", .preload "B"]
    ∃ session, start config script.toSource = .ok session ∧
      config.isRoot "int" = false ∧ config.isVoid "int" = false ∧ config.isVoid "A" = false ∧
      (session.run steps).cache.graph.completeAt 8 = true ∧
      (session.run (steps ++ [.query .subtype "B" "A"])).cache.graph.subtypesOf 8 =
        (session.run steps).cache.graph.subtypesOf 8 ∧
      "int" ∉ (session.run steps).cache.asked ∧
      ∃ verdict later, query .subtype "A" "int" (session.run steps) = .ok (.ok verdict) later ∧
        (verdict = true ↔ isPrimitive "A" = true ∧ ReflTransGen Primitive.Widens "A" "int") := by
  intro edges script config steps
  refine ⟨_, rfl, by decide +kernel, by decide +kernel, by decide +kernel, ?_⟩
  have hstart : start config script.toSource = .ok _ := rfl
  obtain ⟨hfrozen, hprimitive⟩ := frozen_below_complete hstart steps
  obtain ⟨-, hasked, hanswer⟩ := hprimitive .int
  refine ⟨by decide +kernel, hfrozen _ 8 (by decide +kernel), hasked, ?_⟩
  exact hanswer "A" (by decide +kernel) (by decide +kernel) (by decide) (by decide +kernel)

end Session

end NominalSubtyping
