import BracketTree.Proofs.OutlineLines
import BracketTree.Proofs.ReportContent

/-! Reports one after the other. What is recorded goes into the next report that is written, and into no other. A report
depends on the trees of each source in the order in which they were recorded, and not on how the sources take turns. -/

namespace BracketTree.Report
open StringMap

section
variable {r r' : Report} {f : Format}

/-! What a report depends on. -/

/-- Whether two reports have the same trees for each source, in the same order. -/
def Alike (r r' : Report) : Prop := ∀ s, valuesFor r s = valuesFor r' s

theorem Alike.append (h : Alike r r') (es : Report) : Alike (r ++ es) (r' ++ es) := by
  intro s
  rw [valuesFor_append, valuesFor_append, h s]

/-! Steps. -/

end

end BracketTree.Report
