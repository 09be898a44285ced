import NominalSubtyping.TypeUse.Basic

/-!
# Applied types

An *applied type* is a type use whose argument list has been split: a base and its top-level
arguments. The arguments themselves are not split further; their brackets balance, and that is all
that is known of them. Each applied type has one canonical text, in which no blank surrounds an
argument and an empty argument list is written without brackets.

## Main definitions

* `AppliedType.parse` : reads a type use together with its arguments.
* `AppliedType.render` : the canonical text.
-/

namespace NominalSubtyping

/-- A type name with its split arguments. -/
structure AppliedType where
  base : String
  arguments : List String
  deriving DecidableEq, Repr

namespace AppliedType

/-- Reads a type use and splits its arguments. -/
def parse (text : String) : Except BracketError AppliedType := do
  let use ← TypeUse.parse text
  let arguments ← use.arguments
  return ⟨use.base, arguments⟩

/-- The canonical text of an applied type. -/
def render (type : AppliedType) : String :=
  if type.arguments.isEmpty then type.base
  else type.base ++ "<" ++ String.intercalate "," type.arguments ++ ">"

end AppliedType

end NominalSubtyping
