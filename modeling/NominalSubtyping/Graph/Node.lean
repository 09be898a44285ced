/-!
# Nodes of the type graph

A type graph numbers its types in the order in which they are first named. The *node* of a type
holds its name, the numbers of its direct supertypes and of its direct subtypes, in the order in
which the edges were found, and whether it is *complete*: whether everything below it has been
loaded.
-/

namespace NominalSubtyping

/-- The number of a type in a type graph. -/
abbrev NodeId := Nat

/-- What a type graph knows about one type. -/
structure TypeNode where
  name : String
  supertypes : List NodeId := []
  subtypes : List NodeId := []
  /-- Whether everything below the type has been loaded. -/
  complete : Bool := false
  deriving DecidableEq, Repr

namespace TypeNode

/-- Adds a direct supertype at the end, unless it is there; tells whether it was new. -/
def addSupertype (node : TypeNode) (id : NodeId) : Bool × TypeNode :=
  if id ∈ node.supertypes then (false, node)
  else (true, { node with supertypes := node.supertypes ++ [id] })

/-- Adds a direct subtype at the end, unless it is there; tells whether it was new. -/
def addSubtype (node : TypeNode) (id : NodeId) : Bool × TypeNode :=
  if id ∈ node.subtypes then (false, node)
  else (true, { node with subtypes := node.subtypes ++ [id] })

/-- The node with everything below it loaded. -/
def markComplete (node : TypeNode) : TypeNode :=
  { node with complete := true }

end TypeNode

end NominalSubtyping
