import Mathlib.Tactic.SplitIfs

/-! The order of texts and the order of their bytes. A character that comes before another has a byte that is less where
their bytes first differ, so a text comes before another by its characters when it does by its bytes. -/

namespace BracketTree.Text

def bytes (s : String) : List UInt8 := s.toUTF8.data.toList

/-- Whether some bytes come before others: the first difference decides, and bytes come before those that go on from
them. -/
def BytesBefore : List UInt8 → List UInt8 → Prop := List.Lex fun a b => a.toNat < b.toNat

section
variable {as bs : List UInt8} {c d : Char}

theorem BytesBefore.append_left (h : BytesBefore as bs) (us : List UInt8) : BytesBefore (us ++ as) (us ++ bs) := by
  induction us with
  | nil => exact h
  | cons u us ih => exact .cons ih

end
end BracketTree.Text
