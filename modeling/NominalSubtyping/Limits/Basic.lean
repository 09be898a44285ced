/-!
# Recursion limits

Two recursions follow data that the library does not control: the walk through a reported subtype
hierarchy, and the comparison of nested type arguments. Both are bounded by *limits*.
-/

namespace NominalSubtyping

/-- Bounds for a recursion: how deep it may go, and how often it may be entered in all. -/
structure Limits where
  maxDepth : Nat
  maxIterations : Nat
  deriving DecidableEq, Repr

namespace Limits

/-- The limits for the walk through a reported subtype hierarchy. -/
def subtreeLoad : Limits := ⟨512, 1_000_000⟩

/-- The limits for nested type arguments. -/
def typeArguments : Limits := ⟨64, 100_000⟩

end Limits

end NominalSubtyping
