import NominalSubtyping.Text.Blank
import NominalSubtyping.TypeUse.BracketError

/-!
# Argument lists

The text between the brackets of a type use is a list of arguments divided by the commas that stand
outside every inner bracket pair. Such a comma is called *top-level*, and so are the segments
between top-level commas; an argument is a segment without the blanks around it. A text of blanks
only has no arguments.

## Main definitions

* `Arguments.segments` : the top-level segments of a text, or the first imbalance of its brackets.
* `splitArguments` : the arguments of a text.
-/

namespace NominalSubtyping

open Text

namespace Arguments

/-- Puts a character in front of the first segment. -/
def extend (c : Char) : List (List Char) → List (List Char)
  | [] => [[c]]
  | segment :: rest => (c :: segment) :: rest

/-- The top-level segments of a text that starts at byte offset `offset` inside `depth` open
brackets, the outermost of which stands at `outer`; or the imbalance and its offset.

A `>` outside all brackets is an imbalance where it stands. Brackets still open at the end are an
imbalance at the outermost of them. -/
def segments (depth outer offset : Nat) :
    List Char → Except (Imbalance × Nat) (List (List Char))
  | [] => if depth = 0 then .ok [[]] else .error (.unclosed, outer)
  | c :: cs =>
    let next := offset + c.utf8Size
    if c = '<' then
      (segments (depth + 1) (if depth = 0 then offset else outer) next cs).map (extend c)
    else if c = '>' then
      if depth = 0 then .error (.unmatched, offset)
      else (segments (depth - 1) outer next cs).map (extend c)
    else if c = ',' ∧ depth = 0 then
      (segments depth outer next cs).map ([] :: ·)
    else
      (segments depth outer next cs).map (extend c)

end Arguments

/-- The top-level arguments of an argument text, each without the blanks around it. -/
def splitArguments (text : String) : Except BracketError (List String) :=
  if text.toList.all isBlank then
    .ok []
  else
    match Arguments.segments 0 0 0 text.toList with
    | .ok segments => .ok (segments.map fun segment => String.ofList (trim segment))
    | .error (imbalance, position) => .error ⟨imbalance, text, position⟩

end NominalSubtyping
