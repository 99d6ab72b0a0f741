import BracketTree.Command
import BracketTree.FileSystem

/-! How much of a file system a command looks at: the places along some paths, and below some of them so many
levels. -/

namespace BracketTree

inductive Depth where
  | levels (n : Nat)
  | all
deriving DecidableEq, Repr

def Depth.below? : Depth → Option Depth
  | levels 0 => none
  | levels (n + 1) => some (levels n)
  | all => some all

/-- A path that a command follows, and how far it looks around below it. -/
structure Reach where
  path : String
  depth : Depth := .levels 0
deriving DecidableEq, Repr

namespace Reach

def isWild (part : String) : Bool := part.toList.any (· ∈ ['*', '?', '['])

/-- A pattern is followed as far as it spells names; each part that is left leads a level down. -/
def ofPattern (pattern : String) : Reach :=
  let ps := Path.parts pattern
  let rest := ps.dropWhile fun p => !isWild p
  { path := "/".intercalate ((ps.takeWhile fun p => !isWild p) ++ [""])
    depth := if "**" ∈ rest then .all else .levels rest.length }

def placesFrom (here : Location) : List String → List Location
  | [] => [here]
  | part :: ps =>
    if part = "" || part = "." then placesFrom here ps
    else if part = ".." then here :: placesFrom here.dropLast ps
    else here :: placesFrom (here ++ [part]) ps

def places (r : Reach) (start : Location) : List Location :=
  placesFrom (if Path.isAbsolute r.path then [] else start) (Path.parts r.path)

end Reach

namespace Command

def reach : Command → List Reach
  | parse c =>
    c.inputs.map Reach.ofPattern ++ (c.rules.toList ++ c.config.toList ++ [c.output]).map ({ path := · })
  | validate c => [{ path := c.rules }]
  | generate c => [{ path := c.output }]

/-- What a configuration names. -/
def configuredReach (config : Config) : List Reach := config.processing.rules.toList.map ({ path := · })

end Command
end BracketTree
