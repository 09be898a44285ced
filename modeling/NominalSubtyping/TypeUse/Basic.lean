import NominalSubtyping.TypeUse.Arguments

/-!
# Type uses

A *type use* is a type as it is written where it is used: the name of a type, the *base*, and the
raw text between its angle brackets. The base ends at the first `<` and the argument text at the
last `>`, so that the brackets of nested arguments stay inside the argument text. A type use without
argument text is *raw*.

## Main definitions

* `TypeUse.parse` : splits a text at its outermost brackets.
* `TypeUse.arguments` : the arguments of a type use.
-/

namespace NominalSubtyping

/-- A type name with the unsplit text of its arguments. -/
structure TypeUse where
  base : String
  argumentText : String
  deriving DecidableEq, Repr

namespace TypeUse

/-- The part of a text before the last occurrence of `mark`, if there is one. -/
def beforeLast (mark : Char) : List Char → Option (List Char)
  | [] => none
  | c :: cs =>
    match beforeLast mark cs with
    | some before => some (c :: before)
    | none => if c = mark then some [] else none

/-- Splits a text at its first `<` and its last `>`; what follows the last `>` is dropped.

A text with `<` must have a `>` after it. A text without `<` is a raw type use, even if it has a
`>`. -/
def parse (text : String) : Except BracketError TypeUse :=
  let base := text.toList.takeWhile (· ≠ '<')
  match text.toList.dropWhile (· ≠ '<') with
  | [] => .ok ⟨text, ""⟩
  | _ :: rest =>
    match beforeLast '>' rest with
    | some arguments => .ok ⟨String.ofList base, String.ofList arguments⟩
    | none => .error ⟨.unclosed, text, Text.byteLength base⟩

/-- Whether the type use has an argument text. -/
def isGeneric (use : TypeUse) : Bool :=
  use.argumentText ≠ ""

/-- The arguments of a type use. -/
def arguments (use : TypeUse) : Except BracketError (List String) :=
  splitArguments use.argumentText

end TypeUse

end NominalSubtyping
