/-! Progress on several files, which is shown unless nothing is to be shown. For a single file there is nothing to
show. -/

namespace BracketTree

structure Progress where
  quiet : Bool
  isActive : Bool := false
deriving DecidableEq, Repr

namespace Progress

inductive Event where
  | begin (files : Nat)
  | done (file : String)
  | finish
deriving DecidableEq, Repr

/-- Takes note of an event. Once shown, progress stays in sight. -/
def note (p : Progress) : Event → Progress
  | .begin files => if p.quiet || files < 2 then p else { p with isActive := true }
  | .done _ | .finish => p

def history (p : Progress) : List Event → List Bool
  | [] => [p.isActive]
  | e :: es => p.isActive :: history (p.note e) es

end Progress
end BracketTree
