import NominalSubtyping.Proofs.Query.Trees

/-!
# Subtypes of subtypes

The subtype relation between type trees is reflexive as far as arguments are compared at all, and it
can be chained: a subtype of a subtype is a subtype. Neither comes for free. A tree whose arguments
are nested deeper than they are compared is not even a subtype of itself. And the root stands in the
way of chains: everything is a subtype of the root, but the root may have supertypes of its own, of
which not everything is a subtype. So a chain must not pass through the root, on any level of the
arguments.

## Main definitions

* `TypeTree.nesting` : how deep the arguments of a tree are nested.
* `TypeTree.Occurs` : the trees inside a tree.

## Main results

* `TypeTree.IsSubtype.refl` : a tree is a subtype of itself.
* `TypeTree.IsSubtype.trans` : subtypes can be chained, except through the root.
-/

namespace NominalSubtyping.TypeTree

variable {config : Config} {below : (sub sup : String) → Prop}
  {agree : List TypeTree → List TypeTree → Prop} {tree left middle right : TypeTree}

/-! ### Inside a tree -/

mutual

/-- How deep the arguments of a tree are nested: zero without arguments, and otherwise one level
more than in the deepest argument. -/
def nesting : TypeTree → Nat
  | ⟨_, arguments⟩ => nestingOf arguments

/-- How deep a list of arguments is nested, with the level of the list itself. -/
def nestingOf : List TypeTree → Nat
  | [] => 0
  | argument :: rest => max (nesting argument + 1) (nestingOf rest)

end

theorem nesting_lt_nestingOf {arguments : List TypeTree} (h : tree ∈ arguments) :
    tree.nesting < nestingOf arguments := by
  induction arguments with
  | nil => cases h
  | cons argument rest ih =>
    rw [nestingOf]
    rcases List.mem_cons.1 h with rfl | h
    · omega
    · have := ih h
      omega

/-- Arguments are nested less deep than the tree. -/
theorem nesting_lt {argument : TypeTree} (h : argument ∈ tree.arguments) :
    argument.nesting < tree.nesting := by
  obtain ⟨name, arguments⟩ := tree
  rw [nesting]
  exact nesting_lt_nestingOf h

/-- The tree `part` is `tree` itself, or it occurs in an argument of `tree`. -/
inductive Occurs : (part tree : TypeTree) → Prop
  | self (tree : TypeTree) : Occurs tree tree
  | argument {part argument tree : TypeTree} (hmem : argument ∈ tree.arguments)
      (h : Occurs part argument) : Occurs part tree

/-! ### One level -/

/-- The void type is comparable with itself only, unless the other type is the root. -/
theorem subtypeWith_iff (hroot : right.isRoot config = false) :
    SubtypeWith config below agree left right ↔
      (left.isVoid config = true ∧ right.isVoid config = true) ∨
      (left.isVoid config = false ∧ right.isVoid config = false ∧
        below left.name.text right.name.text ∧
          (right.arguments = [] ∨ agree left.arguments right.arguments)) := by
  rw [SubtypeWith, if_neg (by rw [hroot]; exact Bool.false_ne_true)]
  cases left.isVoid config <;> cases right.isVoid config <;> simp

theorem subtypeWith_of_isRoot (hroot : right.isRoot config = true) :
    SubtypeWith config below agree left right := by
  rw [SubtypeWith, if_pos hroot]
  trivial

/-- One level of reflexivity. -/
theorem SubtypeWith.refl (hrefl : ∀ name, below name name)
    (hagree : tree.arguments = [] ∨ agree tree.arguments tree.arguments) :
    SubtypeWith config below agree tree tree := by
  cases hroot : tree.isRoot config with
  | true => exact subtypeWith_of_isRoot hroot
  | false =>
    rw [subtypeWith_iff hroot]
    cases tree.isVoid config with
    | true => exact Or.inl ⟨rfl, rfl⟩
    | false => exact Or.inr ⟨rfl, rfl, hrefl _, hagree⟩

/-- One level of a chain. -/
theorem SubtypeWith.trans (htrans : ∀ {a b c}, below a b → below b c → below a c)
    (hraw : ∀ {arguments}, agree [] arguments → arguments = [])
    (hagree : agree left.arguments middle.arguments → agree middle.arguments right.arguments →
      agree left.arguments right.arguments)
    (hmiddle : middle.isRoot config = false) (h : SubtypeWith config below agree left middle)
    (h' : SubtypeWith config below agree middle right) :
    SubtypeWith config below agree left right := by
  cases hroot : right.isRoot config with
  | true => exact subtypeWith_of_isRoot hroot
  | false =>
    rw [subtypeWith_iff hmiddle] at h
    rw [subtypeWith_iff hroot] at h' ⊢
    rcases h with ⟨hleft, hvoid⟩ | ⟨hleft, hvoid, hbelow, harguments⟩
    · rcases h' with ⟨-, hright⟩ | ⟨hvoid', -⟩
      · exact Or.inl ⟨hleft, hright⟩
      · rw [hvoid] at hvoid'
        cases hvoid'
    · rcases h' with ⟨hvoid', -⟩ | ⟨-, hright, hbelow', harguments'⟩
      · rw [hvoid] at hvoid'
        cases hvoid'
      · refine Or.inr ⟨hleft, hright, htrans hbelow hbelow', ?_⟩
        rcases harguments' with hnone | harguments'
        · exact Or.inl hnone
        · rcases harguments with hnone | harguments
          · -- A raw type satisfies no arguments, so there are none above it.
            rw [hnone] at harguments'
            exact Or.inl (hraw harguments')
          · exact Or.inr (hagree harguments harguments')

/-! ### All levels -/

namespace IsSubtype

/-- A tree is a subtype of itself, if its arguments are compared all the way down. -/
theorem refl (hrefl : ∀ name, below name name) {depth : Nat} (hdepth : tree.nesting ≤ depth) :
    IsSubtype config below depth tree tree := by
  induction depth generalizing tree with
  | zero =>
    refine SubtypeWith.refl hrefl
      (Or.inl (List.eq_nil_iff_forall_not_mem.2 fun argument hmem => ?_))
    have := nesting_lt hmem
    omega
  | succ depth ih =>
    refine SubtypeWith.refl hrefl (Or.inr (List.forall₂_same.2 fun argument hmem => ih ?_))
    have := nesting_lt hmem
    omega

/-- Argument lists can be chained if the arguments in the middle can. -/
theorem forall₂_trans {relates : TypeTree → TypeTree → Prop} {lefts middles rights : List TypeTree}
    (hmiddle : ∀ middle ∈ middles, ∀ {left right}, relates left middle → relates middle right →
      relates left right)
    (h : List.Forall₂ relates lefts middles) (h' : List.Forall₂ relates middles rights) :
    List.Forall₂ relates lefts rights := by
  induction h generalizing rights with
  | nil => exact h'
  | cons hfirst _ ih =>
    cases h' with
    | cons hfirst' hrest' =>
      obtain ⟨hmiddle, hmiddles⟩ := List.forall_mem_cons.1 hmiddle
      exact .cons (hmiddle hfirst hfirst') (ih hmiddles hrest')

/-- Subtypes can be chained, if the root does not occur in the middle. -/
theorem trans (htrans : ∀ {a b c}, below a b → below b c → below a c) {depth : Nat}
    (hmiddle : ∀ part, Occurs part middle → part.isRoot config = false)
    (h : IsSubtype config below depth left middle)
    (h' : IsSubtype config below depth middle right) :
    IsSubtype config below depth left right := by
  induction depth generalizing left middle right with
  | zero => exact SubtypeWith.trans htrans False.elim (fun h _ => h) (hmiddle _ (.self _)) h h'
  | succ depth ih =>
    refine SubtypeWith.trans htrans List.forall₂_nil_left_iff.1 ?_ (hmiddle _ (.self _)) h h'
    refine forall₂_trans fun argument hmem => ih fun part hpart => ?_
    exact hmiddle part (.argument hmem hpart)

end IsSubtype

end NominalSubtyping.TypeTree
