import BracketTree.Json.Reader
import BracketTree.Tree

/-! Trees as JSON: a leaf is a string, a group is an array, and so is the tree. Writing has no limit; reading
refuses more than `nestingLimit` arrays inside one another, the tree itself counted. -/

namespace BracketTree

mutual
def Node.toJson : Node → Json
  | leaf s => .ofText s
  | group xs => .array (toJsonList xs)

def Node.toJsonList : List Node → List Json
  | [] => []
  | x :: xs => x.toJson :: toJsonList xs
end

/-- Reads a node in which at most `depth` arrays stand inside one another. -/
def Node.ofJson? : (depth : Nat) → Json → Option Node
  | _, .string us => (StringUnit.text? us).map .leaf
  | depth + 1, .array js => (js.mapM (ofJson? depth)).map .group
  | _, _ => none

namespace Tree

def nestingLimit : Nat := 127

def toJson (t : Tree) : Json := .array (Node.toJsonList t)

def ofJson? : Json → Option Tree
  | .array js => js.mapM (Node.ofJson? (nestingLimit - 1))
  | _ => none

def read? (text : String) : Option Tree := do ofJson? (← Json.read? text)

end Tree
end BracketTree
