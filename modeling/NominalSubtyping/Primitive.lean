/-!
# Primitive types

The eight primitive types are known without asking any source, and so are the *widenings* between
them: the pairs in which a value of the first type may be used as a value of the second.

## Main definitions

* `Primitive.all` : the primitive types, in the order in which a new graph numbers them.
* `Primitive.widenings` : the direct widenings, subtype first.
* `isPrimitive` : whether a name is the name of a primitive type.
-/

namespace NominalSubtyping

/-- The primitive types. -/
inductive Primitive where
  | void
  | boolean
  | char
  | short
  | int
  | long
  | float
  | double
  deriving DecidableEq, Repr

namespace Primitive

/-- The name of a primitive type. -/
def name : Primitive → String
  | void => "void"
  | boolean => "boolean"
  | char => "char"
  | short => "short"
  | int => "int"
  | long => "long"
  | float => "float"
  | double => "double"

/-- All primitive types. -/
def all : List Primitive :=
  [void, boolean, char, short, int, long, float, double]

/-- The direct widenings, each as a subtype and a supertype. -/
def widenings : List (Primitive × Primitive) :=
  [(char, short), (char, int), (char, long), (short, int), (short, long), (int, long),
    (float, double), (long, float)]

theorem mem_all (p : Primitive) : p ∈ all := by
  cases p <;> decide

end Primitive

/-- Whether `name` is the name of a primitive type. -/
def isPrimitive (name : String) : Bool :=
  Primitive.all.any fun p => p.name = name

end NominalSubtyping
