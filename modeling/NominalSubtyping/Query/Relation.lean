/-!
# The two relations

Two questions can be asked about a pair of written types. *Subtype*: may a value of the left type
be used where the right one is expected? *Common subtype*: is there a type that could stand for
both? A common-subtype question first tries whether one of the two base types lies below the other;
a caller who knows that one direction fails may have it skipped.
-/

namespace NominalSubtyping

/-- A question about a pair of types. -/
inductive Relation where
  /-- Whether the left type is a subtype of the right one. -/
  | subtype
  /-- Whether the two types have a common subtype; the flags skip the tests of the left base
  against the right one and of the right base against the left one. -/
  | common (skipForward skipBackward : Bool)
  deriving DecidableEq, Repr

namespace Relation

/-- The question that is asked about the arguments of the types: the same one, with nothing
skipped. -/
def onArguments : Relation → Relation
  | subtype => subtype
  | common _ _ => common false false

/-- The name of the question in the journal. -/
def label : Relation → String
  | subtype => "is_subtype_compatible"
  | common _ _ => "exists_common_subtype"

end Relation

end NominalSubtyping
