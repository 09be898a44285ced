import NominalSubtyping.Proofs.Cache.Steps

/-!
# How an action on a cache ends

An action either gives a value or ends with a fault, and the only fault that a source cannot be kept
from causing is its own crash. An action *leads* to a condition if it ends with a value for which
the condition holds, or with a crash of the source, and if the graph has only grown. What is known
of the caches on the way is left open: a cache is *fit* if it has what the argument at hand needs,
which may be no more than a well-formed graph.

The comparison of type names rests on one more thing. The graphs of fit caches *track* a relation
between names if they show nothing else, and show all of it below a name that has just been loaded.
A graph tracks what it shows itself; over a catalog, it tracks the declared hierarchy.

## Main definitions

* `Cache.Crashed` : the source crashed at the last question that was put to it.
* `Leads` : an action gives a value that meets a condition, unless the source crashes.
* `Cache.Lasting`, `Cache.Between` : facts that growth does not undo, and values between what they
  were and what they became.
* `Cache.Tracks` : what the graphs of fit caches show of a relation between names.

## Main results

* `Leads.bind` : actions lead on from where earlier ones led to.
* `Cache.Tracks.load_leads` : a load shows what it is tracking.
* `Cache.tracks_self` : graphs track themselves.
-/

open Relation (ReflTransGen)

namespace NominalSubtyping

variable {σ α β : Type} {source : Source} {fit : Cache → Prop} {view : σ → Cache}

/-- The source crashed at the last question that was put to it, and this is the fault. -/
def Cache.Crashed (source : Source) (fault : Fault) (later : Cache) : Prop :=
  ∃ asked name message, later.asked = name :: asked ∧ source asked name = .crashed message ∧
    fault = .crashed message

/-- The action leaves a fit cache whose graph has only grown, and gives a value for which `post`
holds; or the source crashes. -/
def Leads (source : Source) (fit : Cache → Prop) (view : σ → Cache) (action : EStateM Fault σ α)
    (state : σ) (post : α → σ → Prop) : Prop :=
  match action state with
  | .ok value later =>
    fit (view later) ∧ (view state).graph.Extends (view later).graph ∧ post value later
  | .error fault later =>
    fit (view later) ∧ (view state).graph.Extends (view later).graph ∧
      Cache.Crashed source fault (view later)

namespace Leads

variable {action : EStateM Fault σ α} {next : α → EStateM Fault σ β} {state : σ}
  {post : α → σ → Prop} {post' : β → σ → Prop}

theorem of_ok {value : α} {later : σ} (haction : action state = .ok value later)
    (hfit : fit (view later)) (hextend : (view state).graph.Extends (view later).graph)
    (hpost : post value later) : Leads source fit view action state post := by
  rw [Leads, haction]
  exact ⟨hfit, hextend, hpost⟩

theorem of_error {fault : Fault} {later : σ} (haction : action state = .error fault later)
    (hfit : fit (view later)) (hextend : (view state).graph.Extends (view later).graph)
    (hcrash : Cache.Crashed source fault (view later)) :
    Leads source fit view action state post := by
  rw [Leads, haction]
  exact ⟨hfit, hextend, hcrash⟩

theorem of_eq_ok (h : Leads source fit view action state post) {value : α} {later : σ}
    (haction : action state = .ok value later) :
    fit (view later) ∧ (view state).graph.Extends (view later).graph ∧ post value later := by
  rwa [Leads, haction] at h

/-- There are two ways for an action to end. -/
theorem cases (h : Leads source fit view action state post) :
    (∃ value later, action state = .ok value later ∧ fit (view later) ∧
        (view state).graph.Extends (view later).graph ∧ post value later) ∨
      ∃ fault later, action state = .error fault later ∧ fit (view later) ∧
        (view state).graph.Extends (view later).graph ∧
        Cache.Crashed source fault (view later) := by
  rw [Leads] at h
  split at h
  · exact Or.inl ⟨_, _, ‹_›, h⟩
  · exact Or.inr ⟨_, _, ‹_›, h⟩

/-- With a source that never crashes there is one way. -/
theorem exists_ok (h : Leads source fit view action state post)
    (hsource : ∀ asked name message, source asked name ≠ .crashed message) :
    ∃ value later, action state = .ok value later ∧ fit (view later) ∧
      (view state).graph.Extends (view later).graph ∧ post value later := by
  refine h.cases.resolve_right ?_
  rintro ⟨fault, later, -, -, -, asked, name, message, -, hcrash, -⟩
  exact hsource asked name message hcrash

theorem mono {weaker : α → σ → Prop} (h : Leads source fit view action state post)
    (hpost : ∀ {value later}, fit (view later) → (view state).graph.Extends (view later).graph →
      post value later → weaker value later) :
    Leads source fit view action state weaker := by
  rcases h.cases with ⟨value, later, haction, hfit, hextend, hvalue⟩ |
    ⟨fault, later, haction, hfit, hextend, hcrash⟩
  · exact .of_ok haction hfit hextend (hpost hfit hextend hvalue)
  · exact .of_error haction hfit hextend hcrash

/-- However the action ends, it leaves a fit cache. -/
theorem fit_finalState (h : Leads source fit view action state post) :
    fit (view (finalState action state)) := by
  rcases h.cases with ⟨value, later, haction, hfit, -⟩ | ⟨fault, later, haction, hfit, -⟩
  · rwa [finalState_of_ok haction]
  · rwa [finalState_of_error haction]

theorem pure {value : α} (hfit : fit (view state)) (hpost : post value state) :
    Leads source fit view (pure value) state post :=
  .of_ok rfl hfit (.refl _) hpost

/-- Actions lead on from where earlier ones led to. -/
theorem bind (h : Leads source fit view action state post)
    (hnext : ∀ {value later}, fit (view later) → (view state).graph.Extends (view later).graph →
      post value later → Leads source fit view (next value) later post') :
    Leads source fit view (action >>= next) state post' := by
  rcases h.cases with ⟨value, middle, haction, hfit, hextend, hvalue⟩ |
    ⟨fault, later, haction, hfit, hextend, hcrash⟩
  · rcases (hnext hfit hextend hvalue).cases with
      ⟨result, later, hresult, hfit', hextend', hpost⟩ |
      ⟨fault, later, hresult, hfit', hextend', hcrash⟩
    · exact .of_ok ((bind_eq_of_ok haction).trans hresult) hfit' (hextend.trans hextend') hpost
    · exact .of_error ((bind_eq_of_ok haction).trans hresult) hfit' (hextend.trans hextend') hcrash
  · exact .of_error (bind_eq_of_error haction) hfit hextend hcrash

theorem discard (h : Leads source fit view action state post) :
    Leads source fit view (discard action) state fun _ later => ∃ value, post value later :=
  h.bind fun hfit _ hvalue => .pure hfit ⟨_, hvalue⟩

end Leads

namespace Cache

variable {below : Cache → (sub sup : String) → Prop} {cache later : Cache}

/-- Whatever `state` says of a cache, `order` leads from there to what it says of a cache that has
grown out of it. -/
def Lasting (fit : Cache → Prop) (order : α → α → Prop) (state : Cache → α) : Prop :=
  ∀ ⦃cache later⦄, fit later → cache.graph.Extends later.graph → order (state cache) (state later)

/-- A value lies between what `state` says of the cache before and of the cache after. -/
def Between (order : α → α → Prop) (state : Cache → α) (before : Cache) (value : α)
    (after : Cache) : Prop :=
  order (state before) value ∧ order value (state after)

/-- The graphs of fit caches show nothing but what `below` says, and after a load they show all that
`below` has said of the loaded name. -/
structure Tracks (source : Source) (fit : Cache → Prop)
    (below : Cache → (sub sup : String) → Prop) : Prop where
  wellFormed : ∀ {cache}, fit cache → cache.graph.WellFormed
  step : ∀ {cache later}, fit cache → Step source cache later → fit later
  grow : ∀ {sub sup}, Lasting fit (· → ·) fun cache => below cache sub sup
  sound : ∀ {cache}, fit cache → ∀ {sub sup}, cache.graph.LiesBelow sub sup → below cache sub sup
  loaded : ∀ {cache later name status}, fit cache → Loads source name cache (.ok status) later →
    ∀ {sub}, below cache sub name → later.graph.LiesBelow sub name

/-- Graphs track themselves, in whatever caches are fit. -/
theorem tracks_self (hwf : ∀ {cache}, fit cache → cache.graph.WellFormed)
    (hstep : ∀ {cache later}, fit cache → Step source cache later → fit later) :
    Tracks source fit (·.graph.LiesBelow) where
  wellFormed := hwf
  step := hstep
  grow _ hextend hb := hextend.liesBelow hb
  sound _ _ _ hb := hb
  loaded h hload _ hb := (hload.grows (hwf h)).extend.liesBelow hb

/-- In caches with well-formed graphs. -/
theorem tracks_graph (source : Source) :
    Tracks source (·.graph.WellFormed) (·.graph.LiesBelow) :=
  tracks_self (fun h => h) fun h hstep => hstep.wellFormed h

/-- In caches that steps lead to. -/
theorem tracks_path (source : Source) (hwf : cache.graph.WellFormed) :
    Tracks source (ReflTransGen (Step source) cache) (·.graph.LiesBelow) :=
  tracks_self (fun h => wellFormed_of_path h hwf) fun h hstep => h.tail hstep

namespace Tracks

variable (ht : Tracks source fit below) (hfit : fit cache)

include ht hfit

theorem intern_leads (name : String) :
    Leads source fit id (intern name) cache fun id later => later.graph.lookup name = some id := by
  obtain ⟨id, hid, hintern⟩ := cache.intern_eq name
  exact .of_ok hintern (ht.step hfit (.node name)) (cache.grows_withNode name).extend hid

theorem record_leads {event : Event} (hevent : event.channel ≠ .graph) :
    Leads source fit id (record event) cache fun _ later => later = cache.withEvent event :=
  .of_ok (record_eq event cache) (ht.step hfit (.event hevent)) (.refl _) rfl

/-- A load shows what it is tracking. -/
theorem load_leads (name : String) :
    Leads source fit id (load source name) cache fun _ later =>
      ∀ {sub}, below cache sub name → later.graph.LiesBelow sub name := by
  have hwf := ht.wellFormed hfit
  obtain ⟨outcome, later, hload, hloads⟩ := load_loads hwf source name
  cases outcome with
  | ok status =>
    exact .of_ok hload (ht.step hfit (.load hloads)) (hloads.grows hwf).extend
      (ht.loaded hfit hloads)
  | error fault =>
    refine .of_error hload (ht.step hfit (.load hloads)) (hloads.grows hwf).extend ?_
    cases hloads with
    | crashed hincomplete hreply =>
      exact ⟨cache.asked, name, _, asked_opening cache name, hreply, rfl⟩

omit ht in
theorem inspect_leads {read : TypeGraph → Except Fault α} {value : α}
    (hread : read cache.graph = .ok value) :
    Leads source fit id (inspect read) cache fun found later => found = value ∧ later = cache :=
  .of_ok (inspect_eq_of_ok read hread) hfit (.refl _) ⟨rfl, rfl⟩

omit hfit in
/-- A verdict is given back after a no was recorded. -/
theorem unless_record_leads {action : CacheM Bool} {state : Cache → Prop} {event : Event}
    (h : Leads source fit id action cache fun verdict later =>
      Between (· → ·) state cache (verdict = true) later) (hevent : event.channel ≠ .graph) :
    Leads source fit id (do
      let verdict ← action
      unless verdict do record event
      return verdict) cache fun verdict later =>
        Between (· → ·) state cache (verdict = true) later := by
  refine h.bind fun {verdict later} hlater _ hverdict => ?_
  cases verdict with
  | true => exact .pure hlater hverdict
  | false =>
    refine (ht.record_leads hlater hevent).bind fun hlast _ _ => .pure hlast ?_
    exact ⟨hverdict.1, fun hno => (by cases hno)⟩

end Tracks

end Cache

end NominalSubtyping
