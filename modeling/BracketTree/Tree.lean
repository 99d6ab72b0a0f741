/-! Result trees. A tree is a sequence of nodes; a node is a leaf text or a group, which is a sequence again.
Inputs may nest as deep as they are long, so each walk over a tree keeps the rows of nodes still to be
visited in a list, innermost first, and never recurses into a group. -/

namespace BracketTree

inductive Node where
  | leaf (text : String)
  | group (children : List Node)
deriving Repr

abbrev Tree := List Node

namespace Node

mutual
def decEq : (a b : Node) → Decidable (a = b)
  | leaf s, leaf t => if h : s = t then isTrue (h ▸ rfl) else isFalse (fun e => h (Node.leaf.inj e))
  | leaf _, group _ => isFalse nofun
  | group _, leaf _ => isFalse nofun
  | group xs, group ys =>
    match decEqList xs ys with
    | isTrue h => isTrue (h ▸ rfl)
    | isFalse h => isFalse (fun e => h (Node.group.inj e))

def decEqList : (a b : List Node) → Decidable (a = b)
  | [], [] => isTrue rfl
  | [], _ :: _ => isFalse nofun
  | _ :: _, [] => isFalse nofun
  | x :: xs, y :: ys =>
    match decEq x y with
    | isFalse h => isFalse (fun e => h (List.cons.inj e).1)
    | isTrue h =>
      match decEqList xs ys with
      | isFalse h' => isFalse (fun e => h' (List.cons.inj e).2)
      | isTrue h' => isTrue (h ▸ h' ▸ rfl)
end

instance : DecidableEq Node := decEq

def text? : Node → Option String
  | leaf s => some s
  | group _ => none

def children? : Node → Option (List Node)
  | leaf _ => none
  | group xs => some xs

/-- The text a group begins with, when its first child is a leaf. -/
def opener? (n : Node) : Option String :=
  n.children?.bind (·.head?) |>.bind text?

mutual
def count : Node → Nat
  | leaf _ => 1
  | group xs => countList xs + 1

def countList : List Node → Nat
  | [] => 0
  | x :: xs => x.count + countList xs
end

end Node

namespace Tree

/-- The number of leaves, the number of groups, and the greatest number of groups around one place. -/
structure Stats where
  leaves : Nat := 0
  groups : Nat := 0
  depth : Nat := 0
deriving DecidableEq, Repr

/-- What is left to do on a walk: an unvisited node weighs two, a row that has to be left weighs one. -/
def pendingWeight : List (List Node) → Nat
  | [] => 0
  | row :: rows => 2 * Node.countList row + 1 + pendingWeight rows

/-- Counts on from `acc`, where `around` groups surround the row being visited: the row itself comes first
and the rows around it follow. -/
def statsFrom (acc : Stats) (around : Nat) : List (List Node) → Stats
  | [] => acc
  | [] :: rows => statsFrom acc (around - 1) rows
  | (.leaf _ :: row) :: rows => statsFrom { acc with leaves := acc.leaves + 1 } around (row :: rows)
  | (.group xs :: row) :: rows =>
    statsFrom { acc with groups := acc.groups + 1, depth := max acc.depth (around + 1) } (around + 1)
      (xs :: row :: rows)
termination_by rows => pendingWeight rows
decreasing_by all_goals simp only [pendingWeight, Node.countList, Node.count]; omega

def stats (t : Tree) : Stats := statsFrom {} 0 [t]

/-- Collects on from `acc`, which holds the leaves met so far, the last one first. -/
def flattenFrom (acc : List String) : List (List Node) → List String
  | [] => acc.reverse
  | [] :: rows => flattenFrom acc rows
  | (.leaf s :: row) :: rows => flattenFrom (s :: acc) (row :: rows)
  | (.group xs :: row) :: rows => flattenFrom acc (xs :: row :: rows)
termination_by rows => pendingWeight rows
decreasing_by all_goals simp only [pendingWeight, Node.countList, Node.count]; omega

def flatten (t : Tree) : List String := flattenFrom [] [t]

end Tree
end BracketTree
