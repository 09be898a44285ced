import NominalSubtyping.Limits.Basic
import NominalSubtyping.Query.Relation

/-!
# Configurations

A *configuration* names two special types, the *root*, of which every type is a subtype, and the
*void* type, which has no values, and sets the limits of a session.

## Main definitions

* `Config` : the knobs of a session.
* `Config.isRoot`, `Config.isVoid` : whether a written type is one of the special types.
* `Config.verdict?` : what the special types alone decide about a question.
-/

namespace NominalSubtyping

/-- The knobs of a session. -/
structure Config where
  /-- The type of which every type is a subtype. -/
  rootType : String := "java.lang.Object"
  /-- The type without values. -/
  voidType : String := "void"
  /-- Whether everything below the root is loaded when the session begins. -/
  preloadRoot : Bool := true
  /-- The depth limit of a walk through a reported hierarchy. -/
  maxLoadDepth : Nat := Limits.subtreeLoad.maxDepth
  /-- The attempt limit of a walk through a reported hierarchy. -/
  maxLoadIterations : Nat := Limits.subtreeLoad.maxIterations
  /-- How deep type arguments may be nested. -/
  maxGenericDepth : Nat := Limits.typeArguments.maxDepth
  deriving DecidableEq, Repr

namespace Config

/-- The part of a qualified name after its last point. -/
def simpleName (qualified : String) : String :=
  String.ofList (qualified.toList.reverse.takeWhile (· ≠ '.')).reverse

/-- Whether `name` is the root, by its qualified or by its simple name. -/
def isRoot (config : Config) (name : String) : Bool :=
  name = config.rootType || name = simpleName config.rootType

/-- Whether `name` is the void type. -/
def isVoid (config : Config) (name : String) : Bool :=
  name = config.voidType

/-- The limits of a walk through a reported hierarchy. -/
def loadLimits (config : Config) : Limits :=
  ⟨config.maxLoadDepth, config.maxLoadIterations⟩

/-- What the special types alone decide about a question, if they decide it.

Everything is a subtype of the root; the void type is a subtype of itself and of the root only, and
nothing else is a subtype of it. The root has a common subtype with everything, and the void type
with nothing but the root. -/
def verdict? (config : Config) : Relation → (left right : String) → Option Bool
  | .subtype, left, right =>
    if config.isRoot right then some true
    else if config.isVoid left then some (config.isVoid right)
    else if config.isVoid right then some false
    else none
  | .common _ _, left, right =>
    if config.isRoot left || config.isRoot right then some true
    else if config.isVoid left || config.isVoid right then some false
    else none

end Config

end NominalSubtyping
