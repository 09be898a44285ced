import NominalSubtyping.Proofs.Query.Bounds
import NominalSubtyping.Proofs.Query.Trees

/-!
# Questions about names

A text without brackets is a name. A question about two names that the special types do not decide
is a comparison of the names and nothing more: no argument is read, and the counter of nested
arguments stays where it is. If the supposed supertype is complete, the source is not asked either,
so that not even a crash can keep the question from being answered.

## Main results

* `Cache.withEngine_raw` : a question about names is a comparison of names.
* `Bases.related_of_isComplete` : below a complete name the graph decides.
-/

namespace NominalSubtyping

variable {config : Config} {source : Source} {relation : Relation} {left right sub sup : String}
  {cache : Cache}

/-- One level of a question about names. -/
theorem Engine.relateWith_raw (compare : Relation → String → String → EngineM Answer)
    (hverdict : config.verdict? relation left right = none) (hleft : '<' ∉ left.toList)
    (hright : '<' ∉ right.toList) :
    relateWith config source compare relation left right =
      onCache (Bases.related config source relation left right left right) >>= fun related =>
        pure (.ok related) := by
  rw [relateWith, hverdict]
  dsimp only
  rw [Engine.readBoth_eq_ok_iff.2 ⟨TypeUse.parse_raw hleft, TypeUse.parse_raw hright⟩]
  refine bind_congr fun related => ?_
  cases related with
  | false => rfl
  | true => cases relation <;> rfl

theorem Engine.answer_raw (hverdict : config.verdict? relation left right = none)
    (hleft : '<' ∉ left.toList) (hright : '<' ∉ right.toList) :
    answer config source relation left right =
      onCache (Bases.related config source relation left right left right) >>= fun related =>
        pure (.ok related) := by
  funext engine
  rw [answer, get_bind_eq]
  cases engine.nesting.room with
  | zero => exact congrFun (relateWith_raw _ hverdict hleft hright) engine
  | succ room => exact congrFun (relateWith_raw _ hverdict hleft hright) engine

/-- A question about names is a comparison of names. -/
theorem Cache.withEngine_raw (hverdict : config.verdict? relation left right = none)
    (hleft : '<' ∉ left.toList) (hright : '<' ∉ right.toList) (cache : Cache) :
    withEngine config (Engine.answer config source relation left right) cache =
      (Bases.related config source relation left right left right >>= fun related =>
        pure (Except.ok related)) cache := by
  rw [Engine.answer_raw hverdict hleft hright]
  cases hrelated : Bases.related config source relation left right left right cache with
  | ok related later =>
    rw [bind_eq_of_ok hrelated]
    exact withEngine_eq_of_ok (bind_eq_of_ok (Engine.onCache_eq_of_ok hrelated)) rfl
  | error fault later =>
    rw [bind_eq_of_error hrelated]
    exact withEngine_eq_of_error (bind_eq_of_error (Engine.onCache_eq_of_error hrelated))

/-- A question that the special types decide leaves no trace. -/
theorem Cache.withEngine_special {verdict : Bool}
    (hverdict : config.verdict? relation left right = some verdict) (source : Source)
    (cache : Cache) :
    withEngine config (Engine.answer config source relation left right) cache =
      .ok (.ok verdict) cache := by
  have hlevel (compare : Relation → String → String → EngineM Answer) :
      Engine.relateWith config source compare relation left right = pure (.ok verdict) := by
    rw [Engine.relateWith, hverdict]
  have hanswer : Engine.answer config source relation left right = pure (.ok verdict) := by
    funext engine
    rw [Engine.answer, get_bind_eq]
    cases engine.nesting.room with
    | zero => exact congrFun (hlevel _) engine
    | succ room => exact congrFun (hlevel _) engine
  rw [hanswer]
  exact withEngine_eq_of_ok rfl rfl

/-! ### Below a complete name -/

/-- Below a complete name the graph decides, and the source is not asked. -/
theorem Bases.liesBelow_of_isComplete (hwf : cache.graph.WellFormed)
    (hc : cache.graph.isComplete sup = true) (source : Source) (sub : String) :
    ∃ verdict, liesBelow source sub sup cache = .ok verdict (cache.withNode sub) ∧
      (verdict = true ↔ cache.graph.LiesBelow sub sup) := by
  have hwf' := Cache.wellFormed_withNode hwf sub
  have hc' : (cache.withNode sub).graph.isComplete sup = true :=
    (cache.grows_withNode sub).extend.isComplete hc
  obtain ⟨subId, hsub, hintern⟩ := cache.intern_eq sub
  obtain ⟨supId, hsup, hintern'⟩ := (cache.withNode sub).intern_eq sup
  rw [Cache.withNode_of_isComplete hc'] at hsup hintern'
  obtain ⟨verdict, hancestor, hiff⟩ := TypeGraph.isAncestor_eq hwf' hsub hsup
  refine ⟨verdict, ?_, hiff.trans ?_⟩
  · refine (bind_eq_of_ok hintern).trans ((bind_eq_of_ok hintern').trans ?_)
    refine (bind_eq_of_ok (discard_eq_of_ok (Cache.load_of_isComplete hwf' source hc'))).trans ?_
    exact Cache.inspect_eq_of_ok _ hancestor
  · simp only [TypeGraph.LiesBelow, Cache.graph_withNode, TypeGraph.hasEdge_withNode hwf]

theorem Bases.related_of_isComplete (hwf : cache.graph.WellFormed)
    (hc : cache.graph.isComplete sup = true) (config : Config) (source : Source)
    (left right sub : String) :
    ∃ verdict later, related config source .subtype left right sub sup cache = .ok verdict later ∧
      (verdict = true ↔ cache.graph.LiesBelow sub sup) := by
  obtain ⟨verdict, hbelow, hiff⟩ := liesBelow_of_isComplete hwf hc source sub
  refine ⟨verdict, ?_⟩
  rw [related]
  cases verdict with
  | true => exact ⟨_, bind_eq_of_ok hbelow, hiff⟩
  | false => exact ⟨_, bind_eq_of_ok hbelow, hiff⟩

end NominalSubtyping
