import NominalSubtyping.Proofs.Cache.Faithful
import NominalSubtyping.Proofs.Query.Bounds

/-!
# Answers over a catalog

On a faithful cache every question gets its ideal answer, in whatever order things have been loaded,
and the cache stays faithful. The graphs of faithful caches track the hierarchy of the catalog: the
loads that precede a comparison exhaust the names that it is about. The hierarchy does not grow, so
the ideal answers before and after a question are the same, and there is but one answer between
them.

## Main results

* `Cache.tracks_catalog` : the graphs of faithful caches track the hierarchy of the catalog.
* `Cache.withEngine_yields` : a new engine gives the ideal answer.
-/

namespace NominalSubtyping.Cache

variable {catalog : Catalog} {cache : Cache}

/-- A load succeeds, and exhausts the name. -/
theorem Faithful.load (h : Faithful catalog cache) (hbuilt : catalog.Built) (name : String) :
    ∃ status later, Cache.load catalog.toSource name cache = .ok status later ∧
      Faithful catalog later ∧ cache.graph.Extends later.graph ∧ Exhausted catalog later name := by
  obtain ⟨outcome, later, hload, hloads⟩ := load_loads h.wellFormed catalog.toSource name
  obtain ⟨⟨status, rfl⟩, hlater, hexhausted⟩ := h.loads hbuilt hloads
  exact ⟨status, later, hload, hlater, (hloads.grows h.wellFormed).extend, hexhausted⟩

/-- The graphs of faithful caches track the hierarchy of the catalog. -/
theorem tracks_catalog (hbuilt : catalog.Built) :
    Tracks catalog.toSource (Faithful catalog) fun _ => catalog.Below where
  wellFormed h := h.wellFormed
  step h hstep := by
    cases hstep with
    | node name => exact h.withNode name
    | event _ => exact h.withEvent _
    | load hload => exact (h.loads hbuilt hload).2.1
  grow _ _ hb := hb
  sound h _ _ hb := h.below_of_liesBelow hb
  loaded h hload _ hb := by
    obtain ⟨-, hlater, hexhausted⟩ := h.loads hbuilt hload
    exact (hlater.liesBelow_iff hexhausted).2 hb

/-- A new engine gives the ideal answer. -/
theorem withEngine_yields (h : Faithful catalog cache) (hbuilt : catalog.Built) (config : Config)
    (relation : Relation) (left right : String) :
    ∃ later, withEngine config (Engine.answer config catalog.toSource relation left right) cache =
        .ok (Ideal.answer config catalog.Below config.maxGenericDepth relation left right) later ∧
      Faithful catalog later := by
  obtain ⟨answer, later, hanswer, hlater, -, hbefore, hafter⟩ :=
    (withEngine_leads (tracks_catalog hbuilt) h config relation left right).exists_ok
      (toSource_ne_crashed catalog)
  obtain rfl := hbefore.antisymm hafter
  exact ⟨later, hanswer, hlater⟩

end NominalSubtyping.Cache
