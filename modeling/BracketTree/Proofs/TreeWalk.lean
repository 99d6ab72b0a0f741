import BracketTree.Tree
import Mathlib.Tactic.SplitIfs

/-! The walks over a tree keep the rows still to be visited in a list. They compute what recursion on the tree
computes: its leaves from left to right, how many leaves and groups there are, and how deep the groups nest. -/

namespace BracketTree

namespace Node

/-- What holds of leaves, and of a group when it holds of each child, holds of every node. -/
@[elab_as_elim]
theorem induct {P : Node → Prop} (leaf : ∀ s, P (.leaf s)) (group : ∀ xs, (∀ x ∈ xs, P x) → P (.group xs)) :
    ∀ x, P x
  | .leaf s => leaf s
  | .group xs => group xs fun x _ => induct leaf group x

mutual
/-- The leaves at and below a node, from left to right. -/
def leaves : Node → List String
  | leaf s => [s]
  | group xs => leavesList xs

def leavesList : List Node → List String
  | [] => []
  | x :: xs => x.leaves ++ leavesList xs
end

mutual
/-- How many groups there are at and below a node. -/
def groups : Node → Nat
  | leaf _ => 0
  | group xs => groupsList xs + 1

def groupsList : List Node → Nat
  | [] => 0
  | x :: xs => x.groups + groupsList xs
end

mutual
/-- How many groups, the node itself counted, are around the innermost place of a node. -/
def nesting : Node → Nat
  | leaf _ => 0
  | group xs => nestingList xs + 1

def nestingList : List Node → Nat
  | [] => 0
  | x :: xs => max x.nesting (nestingList xs)
end

theorem leavesList_append (xs ys : List Node) : leavesList (xs ++ ys) = leavesList xs ++ leavesList ys := by
  induction xs with
  | nil => rfl
  | cons x xs ih => simp only [List.cons_append, leavesList, ih, List.append_assoc]

theorem groupsList_append (xs ys : List Node) : groupsList (xs ++ ys) = groupsList xs + groupsList ys := by
  induction xs with
  | nil => exact (Nat.zero_add _).symm
  | cons x xs ih => simp only [List.cons_append, groupsList, ih, Nat.add_assoc]

theorem nestingList_append (xs ys : List Node) : nestingList (xs ++ ys) = max (nestingList xs) (nestingList ys) := by
  induction xs with
  | nil => exact (Nat.zero_max _).symm
  | cons x xs ih => simp only [List.cons_append, nestingList, ih, Nat.max_assoc]

end Node

namespace Tree
open Node

theorem flattenFrom_eq (acc : List String) (rows : List (List Node)) :
    flattenFrom acc rows = acc.reverse ++ rows.flatMap leavesList := by
  induction acc, rows using flattenFrom.induct with
  | case1 acc => simp [flattenFrom]
  | case2 acc rows ih => rw [flattenFrom, ih]; simp [leavesList]
  | case3 acc s row rows ih => rw [flattenFrom, ih]; simp [leavesList, leaves]
  | case4 acc xs row rows ih => rw [flattenFrom, ih]; simp [leavesList, leaves]

theorem flatten_eq (t : Tree) : flatten t = leavesList t := by
  simp [flatten, flattenFrom_eq]

/-- How deep a row reaches whose groups nest `n` deep and which itself has `around` groups around it; a row
without groups reaches nowhere. -/
def reach (around n : Nat) : Nat := if n = 0 then 0 else around + n

/-- How deep rows reach, of which the first has `around` groups around it and each further one has one less. -/
def reachRows (around : Nat) : List (List Node) → Nat
  | [] => 0
  | row :: rows => max (reach around (nestingList row)) (reachRows (around - 1) rows)

theorem reach_zero (n : Nat) : reach 0 n = n := by
  unfold reach
  split_ifs <;> omega

theorem reach_max (around m n : Nat) : reach around (max m n) = max (reach around m) (reach around n) := by
  unfold reach
  split_ifs <;> omega

/-- Going into a group, where the groups nest `m` deep, from a row where those still to come nest `n` deep. -/
theorem reach_group (around m n : Nat) :
    reach around (max (m + 1) n) = max (around + 1) (max (reach (around + 1) m) (reach around n)) := by
  unfold reach
  split_ifs <;> omega

/-- Going on in a group behind a row whose groups nest `m` deep, with a node in which they nest `n` deep. -/
theorem reach_last (around m n : Nat) :
    reach around (max m n + 1) = max (reach around (m + 1)) (reach (around + 1) n) := by
  simp only [reach, Nat.succ_ne_zero, if_false]
  split_ifs <;> omega

theorem statsFrom_eq (acc : Stats) (around : Nat) (rows : List (List Node)) :
    statsFrom acc around rows =
      ⟨acc.leaves + (rows.flatMap leavesList).length, acc.groups + groupsList rows.flatten,
        max acc.depth (reachRows around rows)⟩ := by
  induction acc, around, rows using statsFrom.induct with
  | case1 acc around => simp [statsFrom, groupsList, reachRows]
  | case2 acc around rows ih =>
    rw [statsFrom, ih]
    simp [leavesList, reachRows, nestingList, reach]
  | case3 acc around s row rows ih =>
    rw [statsFrom, ih]
    simp [leavesList, leaves, groupsList, groups, reachRows, nestingList, nesting]
    omega
  | case4 acc around xs row rows ih =>
    rw [statsFrom, ih]
    have hd := reach_group around (nestingList xs) (nestingList row)
    simp only [List.flatMap_cons, leavesList, leaves, List.length_append, List.flatten_cons, List.cons_append,
      groupsList, groups, groupsList_append, reachRows, nestingList, nesting, hd, Nat.add_sub_cancel,
      Stats.mk.injEq]
    omega

theorem stats_eq (t : Tree) : stats t = ⟨(leavesList t).length, groupsList t, nestingList t⟩ := by
  rw [stats, statsFrom_eq]
  simp [reachRows, reach_zero]

end Tree
end BracketTree
