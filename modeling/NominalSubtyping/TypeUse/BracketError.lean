/-!
# Bracket errors

The only way in which a written type can be malformed is that its angle brackets do not balance. A
*bracket error* records which way the balance fails, the text that was being read, and the byte
offset of the offending bracket in that text.
-/

namespace NominalSubtyping

/-- The two ways in which angle brackets fail to balance. -/
inductive Imbalance where
  /-- A `<` that no `>` closes. -/
  | unclosed
  /-- A `>` that closes no `<`. -/
  | unmatched
  deriving DecidableEq, Repr

/-- An unbalanced bracket in `input`, at byte offset `position`. -/
structure BracketError where
  imbalance : Imbalance
  input : String
  position : Nat
  deriving DecidableEq, Repr

namespace BracketError

/-- The text shown to the user. -/
def message (e : BracketError) : String :=
  let what := match e.imbalance with
    | .unclosed => "unclosed '<'"
    | .unmatched => "unmatched '>'"
  what ++ " at offset " ++ toString e.position ++ " in generic type `" ++ e.input ++ "`"

end BracketError

end NominalSubtyping
