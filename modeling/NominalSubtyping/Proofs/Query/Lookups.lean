import NominalSubtyping.Proofs.Query.Raw

/-!
# What a question about names asks for

An action *asks for* a list of names if, however it ends, the names that it asked the source for are
some of the list, in its order, the newest first. A subtype question about two names asks for the
supposed supertype and for nothing else. A common-subtype question may ask for either name twice:
once to find out whether the other one lies below it, and once more to look for something that lies
below both.

## Main definitions

* `Cache.AsksFor` : the names that an action may ask for.

## Main results

* `Bases.related_asksFor` : what a comparison of names asks for.
-/

namespace NominalSubtyping

variable {α β : Type} {source : Source} {names more : List String}

/-- However the action ends, the graph is well-formed, and the names that the source was asked for
on the way are some of `names`, the newest first. -/
def Cache.AsksFor (names : List String) (action : CacheM α) : Prop :=
  ∀ cache : Cache, cache.graph.WellFormed →
    (finalState action cache).graph.WellFormed ∧
      ∃ asked, (finalState action cache).asked = asked ++ cache.asked ∧ asked.Sublist names

namespace Cache.AsksFor

variable {action : CacheM α} {next : α → CacheM β}

theorem mono (h : AsksFor names action) (hnames : names.Sublist more) : AsksFor more action := by
  intro cache hwf
  obtain ⟨hlater, asked, hasked, hsublist⟩ := h cache hwf
  exact ⟨hlater, asked, hasked, hsublist.trans hnames⟩

theorem pure (value : α) : AsksFor [] (pure value) :=
  fun _ hwf => ⟨hwf, [], rfl, .refl _⟩

/-- What comes later is asked for later. -/
theorem bind (h : AsksFor names action) (hnext : ∀ value, AsksFor more (next value)) :
    AsksFor (more ++ names) (action >>= next) := by
  intro cache hwf
  obtain ⟨hwf', asked, hasked, hsublist⟩ := h cache hwf
  rw [finalState_bind]
  cases haction : action cache with
  | ok value later =>
    rw [finalState_of_ok haction] at hwf' hasked
    obtain ⟨hlast, asked', hasked', hsublist'⟩ := hnext value later hwf'
    refine ⟨hlast, asked' ++ asked, ?_, hsublist'.append hsublist⟩
    rw [hasked', hasked, List.append_assoc]
  | error fault later =>
    rw [finalState_of_error haction] at hwf' hasked
    exact ⟨hwf', asked, hasked, hsublist.trans (List.sublist_append_right more names)⟩

/-- The first part asks for nothing. -/
theorem bind_left (h : AsksFor [] action) (hnext : ∀ value, AsksFor names (next value)) :
    AsksFor names (action >>= next) := by
  rw [← List.append_nil names]
  exact h.bind hnext

/-- The second part asks for nothing. -/
theorem bind_right (h : AsksFor names action) (hnext : ∀ value, AsksFor [] (next value)) :
    AsksFor names (action >>= next) :=
  h.bind hnext

theorem discard (h : AsksFor names action) : AsksFor names (discard action) := by
  intro cache hwf
  rw [finalState_discard]
  exact h cache hwf

theorem intern (name : String) : AsksFor [] (intern name) := by
  intro cache hwf
  obtain ⟨id, -, hintern⟩ := cache.intern_eq name
  rw [finalState_of_ok hintern]
  exact ⟨wellFormed_withNode hwf name, [], cache.asked_withNode name, .refl _⟩

theorem record (event : Event) : AsksFor [] (record event) :=
  fun _ hwf => ⟨hwf, [], rfl, .refl _⟩

theorem inspect (read : TypeGraph → Except Fault α) : AsksFor [] (inspect read) := by
  intro cache hwf
  have hsame : finalState (Cache.inspect read) cache = cache := by
    change finalState (MonadExcept.ofExcept (read cache.graph) : CacheM α) cache = cache
    cases read cache.graph <;> rfl
  rw [hsame]
  exact ⟨hwf, [], rfl, .refl _⟩

theorem load (source : Source) (name : String) : AsksFor [name] (load source name) := by
  intro cache hwf
  obtain ⟨outcome, later, hload, hloads⟩ := load_loads hwf source name
  rw [finalState_of_ending hload, hloads.asked_eq_ite hwf]
  refine ⟨hloads.wellFormed hwf, ?_⟩
  split
  · exact ⟨[], rfl, List.nil_sublist _⟩
  · exact ⟨[name], rfl, .refl _⟩

end Cache.AsksFor

namespace Bases

open Cache

theorem liesBelow_asksFor (source : Source) (sub sup : String) :
    AsksFor [sup] (liesBelow source sub sup) := by
  refine (AsksFor.intern sub).bind_left fun _ => (AsksFor.intern sup).bind_left fun _ => ?_
  exact (AsksFor.load source sup).discard.bind_right fun _ => .inspect _

/-- A verdict is given back after a no was recorded. -/
theorem unless_record_asksFor {action : CacheM Bool} {event : Event} (h : AsksFor names action) :
    AsksFor names (do
      let verdict ← action
      unless verdict do record event
      return verdict) := by
  refine h.bind_right fun verdict => ?_
  cases verdict with
  | true => exact .pure true
  | false => exact (AsksFor.record event).bind_left fun _ => .pure false

theorem isSubtype_asksFor (config : Config) (source : Source) (sub sup : String) :
    AsksFor [sup] (isSubtype config source sub sup) := by
  rw [isSubtype]
  cases config.verdict? .subtype sub sup with
  | some verdict => exact (AsksFor.pure verdict).mono (List.nil_sublist _)
  | none => exact unless_record_asksFor (liesBelow_asksFor source sub sup)

/-- A test that may be skipped, and what is done if it does not decide the question. -/
theorem test_asksFor (config : Config) (source : Source) (skip : Bool) (sub sup : String)
    {rest : CacheM Bool} (hrest : AsksFor names rest) :
    AsksFor (names ++ [sup])
      (if skip then pure false >>= fun found => if found then pure true else rest
        else isSubtype config source sub sup >>= fun found =>
          if found then pure true else rest) := by
  have hnext (found : Bool) : AsksFor names (if found then pure true else rest) := by
    cases found with
    | true => exact (AsksFor.pure true).mono (List.nil_sublist _)
    | false => exact hrest
  cases skip with
  | true => exact hrest.mono (List.sublist_append_left _ _)
  | false => exact (isSubtype_asksFor config source sub sup).bind hnext

/-- Both names are loaded before what lies below them is compared. -/
theorem sharedBelow_asksFor (source : Source) (left right : String) (leftId rightId : NodeId) :
    AsksFor [right, left] (do
      discard (load source left)
      discard (load source right)
      let leftBelow ← inspect (·.subtypeClosure leftId)
      let rightBelow ← inspect (·.subtypeClosure rightId)
      return overlap leftBelow rightBelow) := by
  have hcompare : AsksFor [right] (do
      discard (load source right)
      let leftBelow ← inspect (·.subtypeClosure leftId)
      let rightBelow ← inspect (·.subtypeClosure rightId)
      return overlap leftBelow rightBelow) := by
    refine (AsksFor.load source right).discard.bind_right fun _ => ?_
    exact (AsksFor.inspect _).bind_left fun _ => (AsksFor.inspect _).bind_left fun _ => .pure _
  exact (AsksFor.load source left).discard.bind fun _ => hcompare

theorem shareSubtype_asksFor (config : Config) (source : Source) (skipForward skipBackward : Bool)
    (left right : String) :
    AsksFor [right, left, left, right]
      (shareSubtype config source skipForward skipBackward left right) := by
  refine (AsksFor.intern left).bind_left fun leftId => ?_
  refine (AsksFor.intern right).bind_left fun rightId => ?_
  have hshared := sharedBelow_asksFor source left right leftId rightId
  exact test_asksFor config source skipForward left right
    (test_asksFor config source skipBackward right left hshared)

/-- The names that a question about two names may ask for, the newest first. -/
def consulted (relation : Relation) (left right : String) : List String :=
  match relation with
  | .subtype => [right]
  | .common _ _ => [right, left, left, right]

/-- What a comparison of names asks for. -/
theorem related_asksFor (config : Config) (source : Source) (relation : Relation)
    (left right leftBase rightBase : String) :
    AsksFor (consulted relation leftBase rightBase)
      (related config source relation left right leftBase rightBase) := by
  cases relation with
  | subtype => exact unless_record_asksFor (liesBelow_asksFor source leftBase rightBase)
  | common skipForward skipBackward =>
    exact unless_record_asksFor
      (shareSubtype_asksFor config source skipForward skipBackward leftBase rightBase)

end Bases

/-- What a question about names asks for. -/
theorem Cache.withEngine_asksFor {config : Config} (source : Source) (relation : Relation)
    {left right : String} (hleft : '<' ∉ left.toList) (hright : '<' ∉ right.toList) :
    AsksFor (Bases.consulted relation left right)
      (withEngine config (Engine.answer config source relation left right)) := by
  cases hverdict : config.verdict? relation left right with
  | none =>
    rw [funext (withEngine_raw hverdict hleft hright)]
    exact (Bases.related_asksFor config source relation left right left right).bind_right
      fun _ => .pure _
  | some verdict =>
    rw [funext (withEngine_special hverdict source)]
    exact (AsksFor.pure _).mono (List.nil_sublist _)

end NominalSubtyping
