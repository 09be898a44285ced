import Mathlib.Data.List.Forall2
import NominalSubtyping.Config.Basic
import NominalSubtyping.Proofs.TypeUse.Text

/-!
# Type trees and their spellings

A *type tree* is a type with all its arguments: a name, and a list of type trees. It is *spelled* by
the name alone, or by the name with the spellings of its arguments in brackets, divided by commas
and with any blanks around each of them. So a tree has many spellings, but a spelling is read back
as the tree, one level at a time: the name is its base, and its arguments are spellings of the
argument trees.

A name is not empty, has no brackets and commas, and neither begins nor ends with a blank.

## Main definitions

* `TypeName`, `TypeTree` : names and trees.
* `TypeTree.Spells` : the spellings of a tree.

## Main results

* `TypeTree.Spells.exists_use` : a spelling is read as one level of the tree.
* `TypeTree.Spells.eq_iff` : when a spelling is a given text without brackets.
-/

namespace NominalSubtyping

open Text (isBlank Framed)
open Arguments (Solid)

/-- A name as it may be written. -/
structure TypeName where
  chars : List Char
  framed : Framed chars
  plain : ∀ c ∈ chars, c ≠ '<' ∧ c ≠ '>' ∧ c ≠ ','

/-- The text of a name. -/
def TypeName.text (name : TypeName) : String :=
  String.ofList name.chars

/-- A type with all its arguments. -/
inductive TypeTree where
  | mk (name : TypeName) (arguments : List TypeTree)

namespace TypeTree

/-- The name of the type itself. -/
def name : TypeTree → TypeName
  | mk name _ => name

/-- The arguments of the type. -/
def arguments : TypeTree → List TypeTree
  | mk _ arguments => arguments

/-- A written argument: the text of a tree with blanks around it. -/
structure Piece where
  tree : TypeTree
  text : List Char
  before : List Char
  after : List Char
  blank_before : ∀ c ∈ before, isBlank c = true
  blank_after : ∀ c ∈ after, isBlank c = true

/-- The text of a written argument, with its blanks. -/
def Piece.padded (piece : Piece) : List Char :=
  piece.before ++ piece.text ++ piece.after

/-- The spellings of a tree. -/
inductive Spells : TypeTree → List Char → Prop
  | intro (name : TypeName) (pieces : List Piece)
      (h : ∀ piece ∈ pieces, Spells piece.tree piece.text) :
      Spells ⟨name, pieces.map Piece.tree⟩ (TypeUse.written name.chars (pieces.map Piece.padded))

namespace Spells

variable {tree : TypeTree} {chars : List Char} {text : String}

theorem solid_blank {blanks : List Char} {least : Nat} (h : ∀ c ∈ blanks, isBlank c = true) :
    Solid least blanks := by
  refine Solid.of_forall fun c hc => ⟨?_, ?_, ?_⟩ <;>
  · rintro rfl
    exact absurd (h _ hc) (by decide)

theorem solid_padded {piece : Piece} {least : Nat} (h : Solid least piece.text) :
    Solid least piece.padded :=
  ((solid_blank piece.blank_before).append h).append (solid_blank piece.blank_after)

/-- A spelling is not split inside brackets, nor outside. -/
theorem solid (h : Spells tree chars) : Solid 0 chars := by
  induction h with
  | intro name pieces _ ih =>
    have hname : Solid 0 name.chars := Solid.of_forall name.plain
    rw [TypeUse.written]
    split
    · exact hname
    · refine hname.append (Solid.bracket (Solid.intercalate fun padded hpadded => ?_))
      obtain ⟨piece, hpiece, rfl⟩ := List.mem_map.1 hpadded
      exact solid_padded ((ih piece hpiece).mono (Nat.zero_le 1))

/-- A spelling neither begins nor ends with a blank. -/
theorem framed (h : Spells tree chars) : Framed chars := by
  obtain ⟨name, pieces, -⟩ := h
  rw [TypeUse.written]
  split
  · exact name.framed
  · refine ⟨?_, fun c hc => name.framed.head c ?_, fun c hc => ?_⟩
    · exact List.append_ne_nil_of_left_ne_nil name.framed.nonempty _
    · rwa [List.head?_append_of_ne_nil _ name.framed.nonempty] at hc
    · rw [← List.cons_append, ← List.append_assoc, List.getLast?_concat] at hc
      obtain rfl := Option.some.inj hc
      rfl

theorem not_all_blank (h : Framed chars) : chars.all isBlank = false := by
  obtain ⟨c, rest, rfl⟩ := List.exists_cons_of_ne_nil h.nonempty
  rw [List.all_cons, h.head c rfl, Bool.false_and]

theorem not_all_blank_padded {piece : Piece} (h : Framed piece.text) :
    piece.padded.all isBlank = false := by
  rw [Piece.padded, List.all_append, List.all_append, not_all_blank h,
    Bool.and_false, Bool.false_and]

/-- A spelling is read as one level of the tree: its base is the name, and its arguments are
spellings of the argument trees. -/
theorem exists_use (h : Spells tree text.toList) :
    ∃ use, TypeUse.parse text = .ok use ∧ use.base = tree.name.text ∧
      use.isGeneric = !tree.arguments.isEmpty ∧
      (tree.arguments ≠ [] → ∃ texts, use.arguments = .ok texts ∧
        List.Forall₂ (fun argument text => Spells argument text.toList) tree.arguments texts) := by
  generalize hchars : text.toList = chars at h
  obtain ⟨name, pieces, hpieces⟩ := h
  have hopen : '<' ∉ name.chars := fun hmem => (name.plain _ hmem).1 rfl
  have hparse := TypeUse.parse_written hopen (pieces.map Piece.padded)
  have hblank : ∀ padded ∈ pieces.map Piece.padded, padded.all isBlank = false := by
    intro padded hpadded
    obtain ⟨piece, hpiece, rfl⟩ := List.mem_map.1 hpadded
    exact not_all_blank_padded (hpieces piece hpiece).framed
  have hsolid : ∀ padded ∈ pieces.map Piece.padded, Solid 0 padded := by
    intro padded hpadded
    obtain ⟨piece, hpiece, rfl⟩ := List.mem_map.1 hpadded
    exact solid_padded (hpieces piece hpiece).solid
  rw [← hchars, String.ofList_toList] at hparse
  rcases pieces with _ | ⟨first, rest⟩
  · exact ⟨_, hparse, rfl, rfl, fun hne => absurd rfl hne⟩
  · have hne : (first :: rest).map Piece.padded ≠ [] := List.cons_ne_nil _ _
    refine ⟨_, hparse, rfl, ?_, fun _ => ?_⟩
    · have hsome := TypeUse.intercalate_all_isBlank hne hblank
      refine decide_eq_true fun hempty => ?_
      rw [← String.toList_inj, String.toList_ofList] at hempty
      rw [hempty] at hsome
      cases hsome
    · refine ⟨_, TypeUse.splitArguments_intercalate hne hsolid hblank, ?_⟩
      rw [List.map_map, arguments, List.forall₂_map_left_iff, List.forall₂_map_right_iff,
        List.forall₂_same]
      intro piece hpiece
      have hspells := hpieces piece hpiece
      rw [Function.comp_apply, Piece.padded,
        Text.trim_pad hspells.framed piece.blank_before piece.blank_after, String.toList_ofList]
      exact hspells

/-- A spelling is a text without brackets exactly if the tree has no arguments and the text is its
name. -/
theorem eq_iff (h : Spells tree text.toList) {special : String} (hspecial : '<' ∉ special.toList) :
    text = special ↔ tree.arguments = [] ∧ tree.name.text = special := by
  generalize hchars : text.toList = chars at h
  obtain ⟨name, pieces, -⟩ := h
  have htext : text = String.ofList (TypeUse.written name.chars (pieces.map Piece.padded)) := by
    rw [← hchars, String.ofList_toList]
  rcases pieces with _ | ⟨first, rest⟩
  · rw [htext]
    exact ⟨fun h => ⟨rfl, h⟩, fun h => h.2⟩
  · refine ⟨fun heq => absurd ?_ hspecial, fun h => absurd h.1 (List.cons_ne_nil _ _)⟩
    have hne : (first :: rest).map Piece.padded ≠ [] := List.cons_ne_nil _ _
    rw [← heq, hchars, TypeUse.written, if_neg hne]
    exact List.mem_append_right _ List.mem_cons_self

end Spells

end TypeTree

end NominalSubtyping
