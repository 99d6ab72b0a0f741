import BracketTree.Proofs.JsonRoundTrip
import BracketTree.Proofs.TreeWalk
import BracketTree.Tree.Json

/-! Trees as JSON. Each leaf comes back as it was, whatever it holds, and so does each group, as long as the reader
goes that deep. As the tree itself is an array, it is read back in either layout if its groups nest 126 deep at most,
and not at all if they nest deeper. -/

namespace BracketTree

namespace Node

theorem spelled_toJsonList {xs : List Node} (h : ∀ x ∈ xs, x.toJson.Spelled) : ∀ j ∈ toJsonList xs, j.Spelled := by
  induction xs with
  | nil =>
    intro j hj
    cases hj
  | cons x xs ih =>
    intro j hj
    rcases List.mem_cons.1 hj with rfl | hj
    · exact h x List.mem_cons_self
    · exact ih (fun y hy => h y (List.mem_cons_of_mem x hy)) j hj

theorem spelled_toJson (x : Node) : x.toJson.Spelled := by
  induction x using Node.induct with
  | leaf s => exact Json.spelled_ofText s
  | group xs ih => exact .array (spelled_toJsonList ih)

/-- What reading makes of a node that is written: the node itself, if its groups nest no deeper than is allowed. -/
def ReadsTo (depth : Nat) (x : Node) : Prop :=
  ofJson? depth x.toJson.reread = if x.nesting ≤ depth then some x else none

theorem mapM_ofJson?_reread {depth : Nat} {xs : List Node} (h : ∀ x ∈ xs, ReadsTo depth x) :
    (Json.rereadItems (toJsonList xs)).mapM (ofJson? depth) =
      if nestingList xs ≤ depth then some xs else none := by
  induction xs with
  | nil => exact (if_pos (Nat.zero_le depth)).symm
  | cons x xs ih =>
    have hx : ofJson? depth x.toJson.reread = _ := h x List.mem_cons_self
    have hxs := ih fun y hy => h y (List.mem_cons_of_mem x hy)
    rw [toJsonList, Json.rereadItems, List.mapM_cons, hx, hxs, nestingList]
    simp only [Nat.max_le]
    by_cases h1 : x.nesting ≤ depth <;> by_cases h2 : nestingList xs ≤ depth <;> simp [h1, h2]

theorem readsTo (depth : Nat) (x : Node) : ReadsTo depth x := by
  induction x using Node.induct generalizing depth with
  | leaf s =>
    rw [ReadsTo, nesting, if_pos (Nat.zero_le depth), toJson, Json.ofText, Json.reread, ofJson?,
      StringUnit.text?_reread]
    rfl
  | group xs ih =>
    rw [ReadsTo, nesting, toJson, Json.reread]
    cases depth with
    | zero => rfl
    | succ depth =>
      rw [ofJson?, mapM_ofJson?_reread fun x hx => ih x hx depth]
      by_cases h : nestingList xs ≤ depth <;> simp [h]

end Node

namespace Tree

theorem spelled_toJson (t : Tree) : (toJson t).Spelled :=
  .array (Node.spelled_toJsonList fun x _ => x.spelled_toJson)

theorem ofJson?_reread (t : Tree) :
    ofJson? (toJson t).reread = if Node.nestingList t ≤ nestingLimit - 1 then some t else none :=
  Node.mapM_ofJson?_reread fun x _ => x.readsTo _

/-- A tree that is written in either layout is read back if its groups nest 126 deep at most, and is refused if they
nest deeper. -/
theorem read?_render_toJson (l : Json.Layout) (t : Tree) :
    read? ((toJson t).render l) = if (stats t).depth ≤ 126 then some t else none := by
  rw [read?, (spelled_toJson t).read?_render_eq_reread, stats_eq]
  exact ofJson?_reread t

end Tree
end BracketTree
