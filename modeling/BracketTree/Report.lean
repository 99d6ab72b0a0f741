import BracketTree.StringMap
import BracketTree.Tree.Json
import BracketTree.Tree.Outline

/-! Reports on the trees of several sources. Trees are recorded one by one, and a report is written on all that
were recorded since the one before. In what order they were recorded does not show. -/

namespace BracketTree

namespace Report

inductive Format where
  | json
  | compact
  | outline
deriving DecidableEq, Repr

def Format.name : Format → String
  | json => "json"
  | compact => "compact"
  | outline => "outline"

def Format.ofName? : String → Option Format
  | "json" => some json
  | "compact" => some compact
  | "outline" => some outline
  | _ => none

end Report

/-- What has been recorded: sources with their trees, the last one last. -/
abbrev Report := List (String × Tree)

namespace Report

/-- A report as JSON: the tree itself if there is one source, and otherwise an object with a member for each. Of
two trees of one source the later counts. -/
def toJson (r : Report) : Json :=
  match (StringMap.ofList r).entries with
  | [e] => Tree.toJson e.2
  | es => .object (es.map fun e => Json.member e.1 (Tree.toJson e.2))

def heading (source : String) : String := "== " ++ source ++ " ==\n"

/-- The outlines in the order of their sources, with headings if there is more than one. -/
def outlines (r : Report) : String :=
  let sorted := r.mergeSort fun a b => a.1 ≤ b.1
  if r.length ≤ 1 then String.join (sorted.map fun e => Tree.outline e.2)
  else "\n".intercalate (sorted.map fun e => heading e.1 ++ Tree.outline e.2)

def render (r : Report) : Format → String
  | .json => r.toJson.render .pretty ++ "\n"
  | .compact => r.toJson.render .compact ++ "\n"
  | .outline => r.outlines

inductive Step where
  | record (source : String) (tree : Tree)
  | finish

def step (f : Format) (r : Report) : Step → String × Report
  | .record source tree => ("", r ++ [(source, tree)])
  | .finish => (r.render f, [])

def run (f : Format) (r : Report) : List Step → List String
  | [] => []
  | s :: ss => (step f r s).1 :: run f (step f r s).2 ss

end Report
end BracketTree
