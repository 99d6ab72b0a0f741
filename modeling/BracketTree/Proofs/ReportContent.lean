import BracketTree.Proofs.ByteOrder
import BracketTree.Proofs.ReportOrder
import BracketTree.Proofs.TreeJson

/-! What a report says as JSON. The last tree of each source counts, and the sources come in the order of their bytes.
What is read back from the text is the bare tree if there is one source, and otherwise each source with its tree, as
long as the reader goes that deep. -/

namespace BracketTree.Report

/-- What a report can say: a tree, or sources with their trees. -/
inductive Content where
  | bare (tree : Tree)
  | keyed (entries : List (String × Tree))
deriving DecidableEq, Repr

namespace Content

/-- How many arrays and objects stand inside one another when it is JSON: a tree is an array, and some trees with their
sources are an object. -/
def nesting : Content → Nat
  | bare t => (Node.group t).nesting
  | keyed es => Node.nestingList (es.map fun e => .group e.2) + 1

def toJson : Content → Json
  | bare t => Tree.toJson t
  | keyed es => .object (es.map fun e => Json.member e.1 (Tree.toJson e.2))

/-- Reads a member of an object: a source with its tree, in which one array less may stand inside one another than in a
tree alone. -/
def member? (m : List StringUnit × Json) : Option (String × Tree) := do
  let s ← StringUnit.text? m.1
  let x ← Node.ofJson? (Tree.nestingLimit - 1) m.2
  let t ← x.children?
  return (s, t)

def ofJson? : Json → Option Content
  | .object ms => (ms.mapM member?).map keyed
  | j => (Tree.ofJson? j).map bare

def read? (text : String) : Option Content := do ofJson? (← Json.read? text)

theorem spelled_toJson (c : Content) : c.toJson.Spelled := by
  cases c with
  | bare t => exact Tree.spelled_toJson t
  | keyed es => exact Json.spelled_members fun e _ => Tree.spelled_toJson e.2

theorem member?_reread (s : String) (t : Tree) :
    member? ((StringUnit.ofText s).map StringUnit.reread, (Tree.toJson t).reread) =
      if (Node.group t).nesting ≤ Tree.nestingLimit - 1 then some (s, t) else none := by
  have ht : Node.ofJson? (Tree.nestingLimit - 1) (Tree.toJson t).reread = _ := (Node.group t).readsTo _
  rw [member?, StringUnit.text?_reread, ht]
  split_ifs <;> rfl

theorem mapM_member?_reread (es : List (String × Tree)) :
    (Json.rereadMembers (es.map fun e => Json.member e.1 (Tree.toJson e.2))).mapM member? =
      if Node.nestingList (es.map fun e => .group e.2) ≤ Tree.nestingLimit - 1 then some es else none := by
  induction es with
  | nil => rfl
  | cons e es ih =>
    have he := member?_reread e.1 e.2
    rw [List.map_cons, List.map_cons, Json.member, Json.rereadMembers, List.mapM_cons, he, ih, Node.nestingList]
    simp only [Nat.max_le]
    by_cases h1 : (Node.group e.2).nesting ≤ Tree.nestingLimit - 1 <;>
      by_cases h2 : Node.nestingList (es.map fun e => .group e.2) ≤ Tree.nestingLimit - 1 <;> simp [h1, h2]

theorem ofJson?_reread (c : Content) :
    ofJson? c.toJson.reread = if c.nesting ≤ Tree.nestingLimit then some c else none := by
  cases c with
  | bare t =>
    have hlimit : (bare t).nesting ≤ Tree.nestingLimit ↔ Node.nestingList t ≤ Tree.nestingLimit - 1 :=
      Nat.succ_le_succ_iff
    have hread : ofJson? (toJson (bare t)).reread = (Tree.ofJson? (Tree.toJson t).reread).map bare := rfl
    simp only [hread, Tree.ofJson?_reread, hlimit]
    split_ifs <;> rfl
  | keyed es =>
    have hlimit : (keyed es).nesting ≤ Tree.nestingLimit ↔
        Node.nestingList (es.map fun e => .group e.2) ≤ Tree.nestingLimit - 1 := Nat.succ_le_succ_iff
    have hread : ofJson? (toJson (keyed es)).reread =
        ((Json.rereadMembers (es.map fun e => Json.member e.1 (Tree.toJson e.2))).mapM member?).map keyed := rfl
    simp only [hread, mapM_member?_reread, hlimit]
    split_ifs <;> rfl

end Content

end BracketTree.Report
