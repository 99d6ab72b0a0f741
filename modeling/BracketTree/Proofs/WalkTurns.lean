import BracketTree.Proofs.TreeWalk
import Mathlib.Logic.Function.Iterate

/-! A walk over a tree as a loop. Each turn takes the next node of the innermost row and goes into it if it is a group;
at the end of the row it goes back to the row around it. How deep a group lies is read off the height of the pile of
rows. Every node is taken up once and every row is left once, so the number of turns is known beforehand, and when
the pile is empty the loop has gathered what recursion on the tree gathers. -/

namespace BracketTree

namespace Node

mutual
def leafCount : Node → Nat
  | leaf _ => 1
  | group xs => leafCountList xs

def leafCountList : List Node → Nat
  | [] => 0
  | x :: xs => x.leafCount + leafCountList xs
end

mutual
theorem length_leaves : ∀ x : Node, x.leaves.length = x.leafCount
  | leaf _ => rfl
  | group xs => by simp [leaves, leafCount, length_leavesList xs]

theorem length_leavesList : ∀ xs : List Node, (leavesList xs).length = leafCountList xs
  | [] => rfl
  | x :: xs => by simp [leavesList, leafCountList, length_leaves x, length_leavesList xs]
end

section
variable {α : Type}

mutual
/-- Takes in a node and what is below it from left to right, a group before its children. With each leaf comes how
many groups are around it, and with each group how many are around its children. -/
def fold (visit : α → Nat → Node → α) (around : Nat) (acc : α) : Node → α
  | leaf s => visit acc around (leaf s)
  | group xs => foldList visit (around + 1) (visit acc (around + 1) (group xs)) xs

def foldList (visit : α → Nat → Node → α) (around : Nat) (acc : α) : List Node → α
  | [] => acc
  | x :: xs => foldList visit around (fold visit around acc x) xs
end

end
end Node

namespace Tree
open Node

section
variable {α : Type} {visit : α → Nat → Node → α}

/-- One turn of a walk. What is gathered comes first, then the pile of rows, innermost first; `visit` is told the
height the pile has after the turn, the row at the top of the tree not counted. -/
def turn (visit : α → Nat → Node → α) : α × List (List Node) → α × List (List Node)
  | (acc, []) => (acc, [])
  | (acc, [] :: rows) => (acc, rows)
  | (acc, (.leaf s :: row) :: rows) =>
    let pile := row :: rows
    (visit acc (pile.length - 1) (.leaf s), pile)
  | (acc, (.group xs :: row) :: rows) =>
    let pile := xs :: row :: rows
    (visit acc (pile.length - 1) (.group xs), pile)

/-- The loop is over after `n` turns and not before, and has gathered `result`. -/
structure EndsAfter (visit : α → Nat → Node → α) (start : α × List (List Node)) (n : Nat) (result : α) : Prop where
  running : ∀ k < n, ((turn visit)^[k] start).2 ≠ []
  ended : (turn visit)^[n] start = (result, [])

/-- The number of turns a row takes: one for each leaf, two for each group, which is entered and left, and one for
its own end. -/
def rowTurns (row : List Node) : Nat := leafCountList row + 2 * groupsList row + 1

def pileTurns : List (List Node) → Nat
  | [] => 0
  | row :: rows => rowTurns row + pileTurns rows

/-- What recursion gathers from the rest of a pile. -/
def foldPile (visit : α → Nat → Node → α) (acc : α) : List (List Node) → α
  | [] => acc
  | row :: rows => foldPile visit (foldList visit rows.length acc row) rows

theorem pileTurns_turn (w : α × List (List Node)) : pileTurns (turn visit w).2 = pileTurns w.2 - 1 := by
  rcases w with ⟨acc, _ | ⟨_ | ⟨s | xs, row⟩, rows⟩⟩
  · rfl
  · simp [turn, pileTurns, rowTurns, leafCountList, groupsList]
  · simp only [turn, pileTurns, rowTurns, leafCountList, leafCount, groupsList, groups]
    omega
  · simp only [turn, pileTurns, rowTurns, leafCountList, leafCount, groupsList, groups]
    omega

/-- No turn changes what will have been gathered in the end. -/
theorem foldPile_turn (w : α × List (List Node)) :
    foldPile visit (turn visit w).1 (turn visit w).2 = foldPile visit w.1 w.2 := by
  rcases w with ⟨acc, _ | ⟨_ | ⟨s | xs, row⟩, rows⟩⟩ <;> rfl

theorem pileTurns_iterate (w : α × List (List Node)) (k : Nat) :
    pileTurns ((turn visit)^[k] w).2 = pileTurns w.2 - k := by
  induction k with
  | zero => rfl
  | succ k ih =>
    rw [Function.iterate_succ_apply', pileTurns_turn, ih]
    omega

theorem foldPile_iterate (w : α × List (List Node)) (k : Nat) :
    foldPile visit ((turn visit)^[k] w).1 ((turn visit)^[k] w).2 = foldPile visit w.1 w.2 := by
  induction k with
  | zero => rfl
  | succ k ih => rw [Function.iterate_succ_apply', foldPile_turn, ih]

theorem pileTurns_eq_zero_iff {rows : List (List Node)} : pileTurns rows = 0 ↔ rows = [] := by
  cases rows with
  | nil => simp [pileTurns]
  | cons row rows => simp [pileTurns, rowTurns]

theorem endsAfter_pileTurns (w : α × List (List Node)) :
    EndsAfter visit w (pileTurns w.2) (foldPile visit w.1 w.2) where
  running k hk he := by
    have ht := @pileTurns_iterate α visit w k
    rw [pileTurns_eq_zero_iff.2 he] at ht
    omega
  ended := by
    have ht := @pileTurns_iterate α visit w (pileTurns w.2)
    rw [Nat.sub_self, pileTurns_eq_zero_iff] at ht
    have hf := @foldPile_iterate α visit w (pileTurns w.2)
    rw [ht] at hf
    exact Prod.ext hf ht

end

/-! What the two walks gather. -/

/-- Counts a node, and notes how deep a group reaches. -/
def tally (acc : Stats) (depth : Nat) : Node → Stats
  | .leaf _ => { acc with leaves := acc.leaves + 1 }
  | .group _ => { acc with groups := acc.groups + 1, depth := max acc.depth depth }

def gather (acc : List String) (_depth : Nat) : Node → List String
  | .leaf s => acc ++ [s]
  | .group _ => acc

mutual
theorem fold_tally (around : Nat) (acc : Stats) : ∀ x : Node, x.fold tally around acc =
    ⟨acc.leaves + x.leafCount, acc.groups + x.groups, max acc.depth (reach around x.nesting)⟩
  | .leaf s => by simp [fold, tally, leafCount, groups, nesting, reach]
  | .group xs => by
    have hr : reach around (nestingList xs + 1) = max (around + 1) (reach (around + 1) (nestingList xs)) := by
      simpa [reach] using reach_group around (nestingList xs) 0
    simp only [fold, foldList_tally (around + 1) _ xs, tally, leafCount, groups, nesting, hr, Stats.mk.injEq,
      true_and]
    omega

theorem foldList_tally (around : Nat) (acc : Stats) : ∀ xs : List Node, foldList tally around acc xs =
    ⟨acc.leaves + leafCountList xs, acc.groups + groupsList xs, max acc.depth (reach around (nestingList xs))⟩
  | [] => by simp [foldList, leafCountList, groupsList, nestingList, reach]
  | x :: xs => by
    simp only [foldList, fold_tally around acc x, foldList_tally around _ xs, leafCountList, groupsList,
      nestingList, reach_max, Stats.mk.injEq]
    omega
end

mutual
theorem fold_gather (around : Nat) (acc : List String) : ∀ x : Node, x.fold gather around acc = acc ++ x.leaves
  | .leaf _ => rfl
  | .group xs => foldList_gather (around + 1) acc xs

theorem foldList_gather (around : Nat) (acc : List String) :
    ∀ xs : List Node, foldList gather around acc xs = acc ++ leavesList xs
  | [] => (List.append_nil acc).symm
  | x :: xs => by
    rw [foldList, fold_gather around acc x, foldList_gather around _ xs, leavesList, List.append_assoc]
end

theorem stats_eq_counts (t : Tree) : stats t = ⟨leafCountList t, groupsList t, nestingList t⟩ := by
  rw [stats_eq, length_leavesList]

theorem endsAfter_tally (t : Tree) : EndsAfter tally ({}, [t]) (rowTurns t) (stats t) := by
  have hf : foldPile tally {} [t] = stats t := by
    simp [foldPile, foldList_tally, stats_eq_counts, reach_zero]
  exact hf ▸ endsAfter_pileTurns (({} : Stats), [t])

theorem endsAfter_gather (t : Tree) : EndsAfter gather ([], [t]) (rowTurns t) (flatten t) := by
  have hf : foldPile gather [] [t] = flatten t := by
    simp [foldPile, foldList_gather, flatten_eq]
  exact hf ▸ endsAfter_pileTurns (([] : List String), [t])

/-- The walks give what recursion on the tree gives. As loops they end after one turn for each leaf, two for each group
and one more. Of two trees behind one another they give what they give of each, added up. -/
theorem walks_eq_recursion (t u : Tree) :
    (stats t = ⟨leafCountList t, groupsList t, nestingList t⟩ ∧ flatten t = leavesList t) ∧
    (EndsAfter tally ({}, [t]) (leafCountList t + 2 * groupsList t + 1) (stats t) ∧
      EndsAfter gather ([], [t]) (leafCountList t + 2 * groupsList t + 1) (flatten t)) ∧
    (stats t).leaves = (flatten t).length ∧
    stats (t ++ u) = ⟨(stats t).leaves + (stats u).leaves, (stats t).groups + (stats u).groups,
      max (stats t).depth (stats u).depth⟩ ∧
    flatten (t ++ u) = flatten t ++ flatten u := by
  refine ⟨⟨stats_eq_counts t, flatten_eq t⟩, ⟨endsAfter_tally t, endsAfter_gather t⟩, ?_, ?_, ?_⟩
  · rw [stats_eq, flatten_eq]
  · simp only [stats_eq, leavesList_append, List.length_append, groupsList_append, nestingList_append]
  · rw [flatten_eq, flatten_eq, flatten_eq, leavesList_append]

/-- A leaf, and an empty group inside a group. -/
example : EndsAfter tally ({}, [[.leaf "a", .group [.group []]]]) 6 ⟨1, 2, 2⟩ :=
  ⟨by decide, rfl⟩

end Tree
end BracketTree
