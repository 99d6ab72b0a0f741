import BracketTree.Parser
import BracketTree.Proofs.SideBySide
import BracketTree.Proofs.VocabularyOrder

/-! Leaving tokens out is pruning. Tokens that are left out split the text, open groups and end them like all others;
they are only missing from the tree. So the tree is the one in which nothing is left out, without these leaves, and
a text is refused for the same reason. -/

namespace BracketTree

mutual
/-- A node without some leaf texts. A group stays, even if nothing is left in it. -/
def Node.prune (texts : List String) : Node → Option Node
  | .leaf s => if texts.contains s then none else some (.leaf s)
  | .group xs => some (.group (Node.pruneRow texts xs))

def Node.pruneRow (texts : List String) : List Node → List Node
  | [] => []
  | x :: xs => (x.prune texts).toList ++ Node.pruneRow texts xs
end

/-- A tree without some leaf texts, at every depth. -/
def Tree.prune (texts : List String) (t : Tree) : Tree := Node.pruneRow texts t

namespace Node

theorem pruneRow_eq (texts : List String) (xs : List Node) : pruneRow texts xs = xs.filterMap (prune texts) := by
  induction xs with
  | nil => rfl
  | cons x xs ih =>
    rw [pruneRow, ih, List.filterMap_cons]
    cases x.prune texts with
    | none => rfl
    | some y => rfl

theorem pruneRow_append (texts : List String) (xs ys : List Node) :
    pruneRow texts (xs ++ ys) = pruneRow texts xs ++ pruneRow texts ys := by
  simp only [pruneRow_eq, List.filterMap_append]

theorem pruneRow_reverse (texts : List String) (xs : List Node) :
    pruneRow texts xs.reverse = (pruneRow texts xs).reverse := by
  simp only [pruneRow_eq, List.filterMap_reverse]

end Node

namespace Grouping

/-- Nothing else is left out when nothing is, so what is kept of a token is the pruned leaf. -/
theorem kept_eq_pruneRow (bounds : StringMap String) (texts : List String) (t : String) :
    kept ⟨bounds, texts⟩ t = Node.pruneRow texts (kept ⟨bounds, []⟩ t) := by
  unfold kept
  simp only [List.contains_nil, Bool.false_eq_true, if_false, Node.pruneRow, Node.prune, List.append_nil]
  split_ifs <;> rfl

namespace Cursor

def prune (texts : List String) (c : Cursor) : Cursor :=
  ⟨Node.pruneRow texts c.here, c.around.map fun l => (l.1, Node.pruneRow texts l.2)⟩

section
variable (bounds : StringMap String) (texts : List String) (c : Cursor)

theorem tree_prune : (c.prune texts).tree = Tree.prune texts c.tree := by
  obtain ⟨here, around⟩ := c
  induction around generalizing here with
  | nil => exact (Node.pruneRow_reverse texts here).symm
  | cons l around ih =>
    have hw : wrap (Node.pruneRow texts here) (l.1, Node.pruneRow texts l.2) =
        Node.pruneRow texts (wrap here l) := by
      simp [wrap, Node.pruneRow, Node.prune, Node.pruneRow_reverse]
    have h := ih (wrap here l)
    unfold prune tree at h ⊢
    rw [List.map_cons, List.foldl_cons, hw]
    exact h

theorem awaits_prune (t : String) : (c.prune texts).awaits t = c.awaits t := by
  obtain ⟨here, _ | ⟨l, around⟩⟩ := c
  · rfl
  · rfl

theorem leave_prune : (c.prune texts).leave = c.leave.prune texts := by
  obtain ⟨here, _ | ⟨l, around⟩⟩ := c
  · rfl
  · simp [prune, leave, Node.pruneRow, Node.prune, Node.pruneRow_reverse]

theorem openAt_prune (p : Piece) :
    (c.prune texts).openAt ⟨bounds, texts⟩ p = (c.openAt ⟨bounds, []⟩ p).prune texts := by
  unfold openAt
  cases bounds.find? p.text with
  | none => rfl
  | some closer => rfl

theorem leafAt_prune (p : Piece) :
    (c.prune texts).leafAt ⟨bounds, texts⟩ p = (c.leafAt ⟨bounds, []⟩ p).prune texts := by
  rw [leafAt_eq, leafAt_eq, kept_eq_pruneRow]
  unfold prune
  rw [Node.pruneRow_append]

theorem step_prune (p : Piece) :
    (c.prune texts).step ⟨bounds, texts⟩ p = (c.step ⟨bounds, []⟩ p).prune texts := by
  unfold step
  split_ifs with he
  · rfl
  · rw [openAt_prune, leafAt_prune]
    unfold closeAt
    rw [awaits_prune]
    split_ifs
    · exact leave_prune texts _
    · rfl

theorem close_prune : (c.prune texts).close = c.close.map (Tree.prune texts) := by
  have ht := tree_prune texts c
  obtain ⟨here, _ | ⟨l, around⟩⟩ := c
  · exact congrArg Except.ok ht
  · simp [close, prune, Except.map]

end

/-- What is left out is left out of each cursor on the way, and of nothing else. -/
theorem follows_prune (bounds : StringMap String) (texts : List String) :
    Follows ⟨bounds, []⟩ ⟨bounds, texts⟩ id id (Tree.prune texts) (prune texts) where
  step c p := step_prune bounds texts c p
  strays c p := by
    unfold strays
    rw [id_eq, awaits_prune]
  blame_stray _ := rfl
  tree c := tree_prune texts c
  close c := by
    rw [close_prune]
    cases c.close with
    | error e => rfl
    | ok t => rfl

end Cursor

theorem group_prune (bounds : StringMap String) (texts : List String) (ps : List Piece) :
    group ⟨bounds, texts⟩ ps = Tree.prune texts (group ⟨bounds, []⟩ ps) := by
  have h := (Cursor.follows_prune bounds texts).tree_foldl {} ps
  rw [List.map_id] at h
  rw [group_eq, group_eq]
  exact h

theorem groupStrict_prune (bounds : StringMap String) (texts : List String) (ps : List Piece) :
    groupStrict ⟨bounds, texts⟩ ps = (groupStrict ⟨bounds, []⟩ ps).map (Tree.prune texts) := by
  have h := (Cursor.follows_prune bounds texts).foldlM {} ps
  rw [List.map_id] at h
  rw [groupStrict_eq, groupStrict_eq]
  refine Eq.trans h ?_
  cases ps.foldlM (Cursor.strictStep ⟨bounds, []⟩) {} >>= Cursor.close with
  | error e => rfl
  | ok t => rfl

end Grouping

/-- Whether a token stands in one list of separators or the other makes no difference to where a text is split. -/
theorem Vocabulary.ofBounds_separators (r : Rules) :
    ofBounds r.bounds (Rules.separators ⟨r.bounds, r.separators, []⟩) = ofBounds r.bounds r.separators := by
  refine ofTokens_congr fun t _ => ?_
  simp only [Rules.separators, List.append_nil, List.mem_append, List.mem_eraseDups]

/-- Parsing with tokens left out is parsing with the same tokens kept, and then leaving out their leaves. Errors
are the same. -/
theorem Parser.parse_eq_map_prune (r : Rules) (mode : Mode) (text : String) :
    parse ⟨r, mode⟩ text = (parse ⟨⟨r.bounds, r.separators, []⟩, mode⟩ text).map (Tree.prune r.strip) := by
  have hv : vocabulary ⟨⟨r.bounds, r.separators, []⟩, mode⟩ = vocabulary ⟨r, mode⟩ :=
    Vocabulary.ofBounds_separators r
  unfold parse
  rw [hv]
  cases mode with
  | lenient => exact congrArg Except.ok (Grouping.group_prune r.bounds r.strip _)
  | strict => exact Grouping.groupStrict_prune r.bounds r.strip _

/-- A group of which nothing is left, in a text that ends inside another one. -/
example : Parser.parse ⟨⟨.ofList [("(", ")")], [], ["(", ")"]⟩, .lenient⟩ "a()b(c" =
    .ok [.leaf "a", .group [], .leaf "b", .group [.leaf "c"]] := by
  decide +kernel

end BracketTree
