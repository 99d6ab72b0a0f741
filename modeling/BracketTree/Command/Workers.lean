import BracketTree.Command.Failure
import BracketTree.Proofs.InTurn
import BracketTree.Report

/-! Those who work on the files of a run, several at a time. In which order they finish is up to them: what they hand
back is complete and in place, or it is the failure of some file, whichever came to their notice first. -/

namespace BracketTree.Command

/-- What may be handed back when some tasks come to these results. -/
def Gathered {α ε : Type} (results : List (Except ε α)) : Except ε (List α) → Prop
  | .ok xs => results = xs.map .ok
  | .error e => .error e ∈ results

structure Workers where
  gather : (threads : Nat) → List (Except Failure (String × Tree)) → Except Failure Report
  gathered : ∀ threads results, Gathered results (gather threads results)

def Workers.inTurn : Workers where
  gather _ results := results.mapM id
  gathered _ results := by
    cases h : results.mapM id with
    | ok rep =>
      rw [mapM_eq_ok_iff, List.map_id] at h
      exact h
    | error e =>
      obtain ⟨x, hx, rfl⟩ := exists_error_of_mapM h
      exact hx

end BracketTree.Command
