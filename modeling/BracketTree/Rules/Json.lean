import BracketTree.Json.Reader
import BracketTree.Rules

/-! Rule sets as JSON. Written, a rule set is an object with all three members. Read, a member may be missing
and further members are passed over, or the rule set is an array of its parts with the last ones missing;
what is missing is as in a rule set of which nothing is said. -/

namespace BracketTree.Rules

def toJson (r : Rules) : Json :=
  .object [
    Json.member "bounds" (.object (r.bounds.entries.map fun e => Json.member e.1 (.ofText e.2))),
    Json.member "extra" (.ofTexts r.extra),
    Json.member "strip" (.ofTexts r.strip)]

def boundOfJson? (m : List StringUnit × Json) : Option (String × String) := do
  some (← StringUnit.text? m.1, ← m.2.text?)

/-- Reads pairs; of two members with one key the later counts. -/
def boundsOfJson? : Json → Option (StringMap String)
  | .object ms => (ms.mapM boundOfJson?).map .ofList
  | _ => none

structure Partial where
  bounds? : Option (StringMap String) := none
  extra? : Option (List String) := none
  strip? : Option (List String) := none

def Partial.rules (p : Partial) : Rules :=
  let r : Rules := {}
  ⟨p.bounds?.getD r.bounds, p.extra?.getD r.extra, p.strip?.getD r.strip⟩

/-- Takes in one member. Nothing may be said twice. -/
def Partial.addMember (p : Partial) (m : List StringUnit × Json) : Option Partial := do
  match ← StringUnit.text? m.1 with
  | "bounds" => if p.bounds?.isSome then none else some { p with bounds? := some (← boundsOfJson? m.2) }
  | "extra" => if p.extra?.isSome then none else some { p with extra? := some (← m.2.texts?) }
  | "strip" => if p.strip?.isSome then none else some { p with strip? := some (← m.2.texts?) }
  | _ => some p

def ofJson? : Json → Option Rules
  | .object ms => (ms.foldlM Partial.addMember {}).map (·.rules)
  | .array [] => some {}
  | .array [b] => do some { bounds := ← boundsOfJson? b }
  | .array [b, e] => do some { bounds := ← boundsOfJson? b, extra := ← e.texts? }
  | .array [b, e, s] => do some ⟨← boundsOfJson? b, ← e.texts?, ← s.texts?⟩
  | _ => none

end BracketTree.Rules
