import NominalSubtyping.Config.Basic

/-!
# Configurations as settings

A configuration is kept in settings as an object with one entry per knob. Every knob may be left
out, in which case it has its default, and entries of other names are ignored. The knobs may also be
given without names, as a list in a fixed order whose end may be left out. Limits are whole numbers
of at most 32 bits.

## Main definitions

* `Config.read` : the configuration that settings describe.
* `Config.settings` : the settings that describe a configuration.
-/

namespace NominalSubtyping

/-- A value of one setting, as far as configurations can tell values apart. -/
inductive Setting where
  | text (value : String)
  | flag (value : Bool)
  | whole (value : Nat)
  /-- A value that no knob takes. -/
  | other
  deriving DecidableEq, Repr

/-- Settings in which a configuration may be kept. -/
inductive Settings where
  /-- Settings with names. -/
  | entries (entries : List (String × Setting))
  /-- Settings without names, in the order of the knobs. -/
  | values (values : List Setting)
  /-- A value that holds no settings. -/
  | other
  deriving DecidableEq, Repr

namespace Setting

/-- The text of a setting. -/
def text? : Setting → Option String
  | text value => some value
  | _ => none

/-- The truth value of a setting. -/
def flag? : Setting → Option Bool
  | flag value => some value
  | _ => none

/-- The greatest limit that can be set. -/
def maxLimit : Nat := 4_294_967_295

/-- The limit that a setting gives, a whole number up to `maxLimit`. -/
def limit? : Setting → Option Nat
  | whole value => if value ≤ maxLimit then some value else none
  | _ => none

theorem limit?_whole {value : Nat} (h : value ≤ maxLimit) :
    (whole value).limit? = some value :=
  if_pos h

end Setting

namespace Config

/-- The names of the knobs, in order. -/
def knobs : List String :=
  ["rootType", "voidType", "preloadRoot", "maxLoadDepth", "maxLoadIterations", "maxGenericDepth"]

/-- The settings by name; a list must not have more values than there are knobs. -/
def namedSettings : Settings → Option (List (String × Setting))
  | .entries entries => some entries
  | .values values => if values.length ≤ knobs.length then some (knobs.zip values) else none
  | .other => none

/-- The value of a knob: the default if there is no setting, and otherwise what the setting
gives. -/
def knob {α : Type} (settings : List (String × Setting)) (name : String)
    (read : Setting → Option α) (default : α) : Option α :=
  match settings.lookup name with
  | none => some default
  | some setting => read setting

/-- The configuration that settings describe, if they describe one. -/
def read (settings : Settings) : Option Config := do
  let named ← namedSettings settings
  let default : Config := {}
  return {
    rootType := ← knob named "rootType" Setting.text? default.rootType
    voidType := ← knob named "voidType" Setting.text? default.voidType
    preloadRoot := ← knob named "preloadRoot" Setting.flag? default.preloadRoot
    maxLoadDepth := ← knob named "maxLoadDepth" Setting.limit? default.maxLoadDepth
    maxLoadIterations := ←
      knob named "maxLoadIterations" Setting.limit? default.maxLoadIterations
    maxGenericDepth := ← knob named "maxGenericDepth" Setting.limit? default.maxGenericDepth }

/-- The settings that describe a configuration. -/
def settings (config : Config) : List (String × Setting) :=
  [("rootType", .text config.rootType), ("voidType", .text config.voidType),
    ("preloadRoot", .flag config.preloadRoot), ("maxLoadDepth", .whole config.maxLoadDepth),
    ("maxLoadIterations", .whole config.maxLoadIterations),
    ("maxGenericDepth", .whole config.maxGenericDepth)]

/-- A configuration whose limits can be set is read back from its settings. -/
theorem read_settings (config : Config) (hd : config.maxLoadDepth ≤ Setting.maxLimit)
    (hi : config.maxLoadIterations ≤ Setting.maxLimit)
    (hg : config.maxGenericDepth ≤ Setting.maxLimit) :
    read (.entries config.settings) = some config := by
  have depth : knob config.settings "maxLoadDepth" Setting.limit? Limits.subtreeLoad.maxDepth =
      some config.maxLoadDepth := Setting.limit?_whole hd
  have iterations : knob config.settings "maxLoadIterations" Setting.limit?
      Limits.subtreeLoad.maxIterations = some config.maxLoadIterations := Setting.limit?_whole hi
  have nesting : knob config.settings "maxGenericDepth" Setting.limit?
      Limits.typeArguments.maxDepth = some config.maxGenericDepth := Setting.limit?_whole hg
  rw [read, namedSettings, Option.bind_eq_bind, Option.bind_some]
  simp only [depth, iterations, nesting]
  rfl

end Config

end NominalSubtyping
