import BracketTree.Text.Quoted
import BracketTree.Tree

/-! Trees as outlines: each leaf stands quoted on a line of its own, and each group between a line that opens it
and a line that closes it, two spaces deeper than what is around it. -/

namespace BracketTree.Tree

def addLine (acc : String) (around : Nat) (line : String) : String :=
  acc ++ String.ofList (List.replicate (2 * around) ' ') ++ line ++ "\n"

/-- Writes on after `acc`, where `around` groups surround the row being visited: the row itself comes first and
the rows around it follow. -/
def outlineFrom (acc : String) (around : Nat) : List (List Node) → String
  | [] => acc
  | [] :: rows => outlineFrom (if rows.isEmpty then acc else addLine acc (around - 1) "]") (around - 1) rows
  | (.leaf s :: row) :: rows => outlineFrom (addLine acc around (Text.quoted s)) around (row :: rows)
  | (.group xs :: row) :: rows => outlineFrom (addLine acc around "[") (around + 1) (xs :: row :: rows)
termination_by rows => pendingWeight rows
decreasing_by all_goals simp only [pendingWeight, Node.countList, Node.count]; omega

def outline (t : Tree) : String := outlineFrom "" 0 [t]

end BracketTree.Tree
