/-!
# Blank characters

A character is *blank* when it has Unicode's `White_Space` property. Arguments of a type use may be
surrounded by blanks, which carry no meaning and are trimmed.

## Main definitions

* `Text.isBlank` : the 25 blank characters.
* `Text.trim` : a text without the blanks at its two ends.
* `Text.byteLength` : the length of a text in UTF-8, the unit of every offset of the library.
-/

namespace NominalSubtyping.Text

/-- The code points with the `White_Space` property, as ranges with both ends included. -/
def blankRanges : List (Nat × Nat) :=
  [(0x0009, 0x000D), (0x0020, 0x0020), (0x0085, 0x0085), (0x00A0, 0x00A0), (0x1680, 0x1680),
    (0x2000, 0x200A), (0x2028, 0x2029), (0x202F, 0x202F), (0x205F, 0x205F), (0x3000, 0x3000)]

/-- Whether a character is blank. -/
def isBlank (c : Char) : Bool :=
  blankRanges.any fun range => range.1 ≤ c.toNat && c.toNat ≤ range.2

/-- The text without its leading and trailing blanks. -/
def trim (cs : List Char) : List Char :=
  ((cs.dropWhile isBlank).reverse.dropWhile isBlank).reverse

/-- The number of bytes of a text in UTF-8. -/
def byteLength : List Char → Nat
  | [] => 0
  | c :: cs => c.utf8Size + byteLength cs

/-- The ranges hold 25 code points. -/
example : (blankRanges.map fun range => range.2 + 1 - range.1).sum = 25 := rfl

@[simp]
theorem byteLength_append (cs ds : List Char) :
    byteLength (cs ++ ds) = byteLength cs + byteLength ds := by
  induction cs with
  | nil => simp [byteLength]
  | cons c cs ih => rw [List.cons_append, byteLength, byteLength, ih, Nat.add_assoc]

end NominalSubtyping.Text
