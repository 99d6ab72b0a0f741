import BracketTree.Proofs.Simulation
import Mathlib.Tactic.MkIffOfInductiveProp

/-! Grouping goes from left to right. Whatever a piece puts into the tree stands behind everything that is there
already, in one of the groups at its right edge. So pieces that come later change nothing of what has been built: the
tree of the first pieces is a left part of the tree of all of them. -/

namespace BracketTree

namespace Node

/-- A row is a left part of each row it is the beginning of, and of one that goes on behind it when its last node is a
group that is a left part of the group in the same place. -/
@[mk_iff]
inductive LeftPart : List Node → List Node → Prop
  | start {xs ys : List Node} : xs <+: ys → LeftPart xs ys
  | inside {zs u v rest : List Node} : LeftPart u v → LeftPart (zs ++ [.group u]) (zs ++ [.group v] ++ rest)

theorem LeftPart.refl (xs : List Node) : LeftPart xs xs := .start (List.prefix_refl xs)

theorem LeftPart.trans {xs ys ws : List Node} (h : LeftPart xs ys) (h' : LeftPart ys ws) : LeftPart xs ws := by
  induction h generalizing ws with
  | @start xs ys hp =>
    obtain hq | ⟨zs, u, v, rest, hu, rfl, rfl⟩ := (leftPart_iff _ _).1 h'
    · exact .start (hp.trans hq)
    · -- the last node of `ys` grows, and `xs` has it too or ends in front of it
      rcases List.prefix_concat_iff.1 hp with rfl | hp
      · exact .inside hu
      · rw [List.append_assoc]
        exact .start (hp.trans (List.prefix_append _ _))
  | @inside zs u v rest hu ih =>
    obtain ⟨more, rfl⟩ | ⟨zs', u', v', rest', hu', heq, rfl⟩ := (leftPart_iff _ _).1 h'
    · rw [List.append_assoc]
      exact .inside hu
    · rcases List.eq_nil_or_concat rest with rfl | ⟨rest, y, rfl⟩
      · -- both grow in the same group
        rw [List.append_nil] at heq
        obtain ⟨rfl, hg⟩ := List.append_inj' heq rfl
        obtain rfl : v = u' := Node.group.inj (List.cons.inj hg).1
        exact .inside (ih hu')
      · -- the second one grows in a group behind
        rw [List.concat_eq_append, ← List.append_assoc] at heq
        obtain ⟨rfl, -⟩ := List.append_inj' heq rfl
        rw [List.append_assoc _ [_] rest', List.append_assoc _ rest]
        exact .inside hu

end Node

namespace Grouping
open Node

namespace Cursor

/-- What grows in the innermost group grows in the tree. -/
theorem leftPart_tree {here here' : List Node} (h : LeftPart here.reverse here'.reverse)
    (around : List (Opening × List Node)) : LeftPart (tree ⟨here, around⟩) (tree ⟨here', around⟩) := by
  induction around generalizing here here' with
  | nil => exact h
  | cons l around ih =>
    have hlast : LeftPart (l.2.reverse ++ [.group here.reverse]) (l.2.reverse ++ [.group here'.reverse] ++ []) :=
      .inside h
    have hwrap : LeftPart (wrap here l).reverse (wrap here' l).reverse := by
      rw [List.append_nil] at hlast
      simpa only [wrap, List.reverse_cons] using hlast
    exact ih hwrap

theorem leftPart_put (c : Cursor) (x : Node) : LeftPart c.tree (c.put x).tree := by
  refine leftPart_tree ?_ c.around
  rw [List.reverse_cons]
  exact .start (List.prefix_append _ _)

theorem leftPart_openAt (g : Grouping) (c : Cursor) (p : Piece) : LeftPart c.tree (c.openAt g p).tree := by
  unfold openAt
  cases g.bounds.find? p.text with
  | none => exact .refl _
  | some closer => exact c.leftPart_put (.group [])

theorem leftPart_leafAt (g : Grouping) (c : Cursor) (p : Piece) : LeftPart c.tree (c.leafAt g p).tree := by
  unfold leafAt
  split_ifs
  · exact .refl _
  · exact c.leftPart_put _

theorem leftPart_step (g : Grouping) (c : Cursor) (p : Piece) : LeftPart c.tree (c.step g p).tree := by
  unfold step
  split_ifs
  · exact .refl _
  · rw [tree_closeAt]
    exact (c.leftPart_openAt g p).trans (leftPart_leafAt g _ p)

theorem leftPart_foldl (g : Grouping) (c : Cursor) (ps : List Piece) :
    LeftPart c.tree (ps.foldl (step g) c).tree := by
  induction ps generalizing c with
  | nil => exact .refl _
  | cons p ps ih => exact (c.leftPart_step g p).trans (ih _)

end Cursor

/-- The tree of some pieces is a left part of the tree of these pieces and any that follow. -/
theorem leftPart_group_append (g : Grouping) (ps qs : List Piece) : LeftPart (g.group ps) (g.group (ps ++ qs)) := by
  rw [group_eq, group_eq, List.foldl_append]
  exact Cursor.leftPart_foldl g _ qs

end Grouping
end BracketTree
