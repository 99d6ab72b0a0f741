import BracketTree.Parser
import BracketTree.Proofs.Segmentation
import BracketTree.Proofs.Simulation

/-! Grouping loses nothing, takes nothing twice and keeps the order. The leaves of the tree are the pieces that are
neither empty nor left out, there is one group for each opening token, and what the leaves spell together is the
text without the tokens that are left out. -/

namespace BracketTree.Grouping

/-- Whether a piece stands in the tree as a leaf. -/
def keeps (g : Grouping) (p : Piece) : Bool := p.text ≠ "" && !g.strip.contains p.text

def opens (g : Grouping) (p : Piece) : Bool := p.text ≠ "" && g.bounds.contains p.text

section
variable {g : Grouping} {p : Piece}

theorem keeps_empty (h : p.text = "") : g.keeps p = false := by simp [keeps, h]

theorem opens_empty (h : p.text = "") : g.opens p = false := by simp [opens, h]

end

namespace Cursor

section
variable (g : Grouping) (c : Cursor) (p : Piece)

theorem leaves_openAt : Node.leavesList (c.openAt g p).tree = Node.leavesList c.tree := by
  unfold openAt
  cases g.bounds.find? p.text with
  | none => rfl
  | some closer =>
    change Node.leavesList (c.enter _).tree = _
    rw [tree_enter, leaves_put, Node.leaves, Node.leavesList, List.append_nil]

theorem groups_openAt : Node.groupsList (c.openAt g p).tree =
    Node.groupsList c.tree + if g.bounds.contains p.text then 1 else 0 := by
  rw [StringMap.contains_eq_isSome]
  unfold openAt
  cases g.bounds.find? p.text with
  | none => rfl
  | some closer =>
    change Node.groupsList (c.enter _).tree = _
    rw [tree_enter, groups_put, Node.groups, Node.groupsList]
    rfl

theorem leaves_leafAt : Node.leavesList (c.leafAt g p).tree =
    Node.leavesList c.tree ++ if g.strip.contains p.text then [] else [p.text] := by
  unfold leafAt
  split_ifs
  · rw [List.append_nil]
  · rw [leaves_put, Node.leaves]

theorem groups_leafAt : Node.groupsList (c.leafAt g p).tree = Node.groupsList c.tree := by
  unfold leafAt
  split_ifs
  · rfl
  · rw [groups_put, Node.groups, Nat.add_zero]

/-- A piece adds itself as the last leaf, if it adds any. -/
theorem leaves_step : Node.leavesList (c.step g p).tree =
    Node.leavesList c.tree ++ if g.keeps p then [p.text] else [] := by
  by_cases h : p.text = ""
  · rw [c.step_empty h, keeps_empty h]
    exact (List.append_nil _).symm
  · rw [step, if_neg h, tree_closeAt, leaves_leafAt, leaves_openAt]
    simp [keeps, h]

theorem groups_step : Node.groupsList (c.step g p).tree =
    Node.groupsList c.tree + if g.opens p then 1 else 0 := by
  by_cases h : p.text = ""
  · rw [c.step_empty h, opens_empty h]
    rfl
  · rw [step, if_neg h, tree_closeAt, groups_leafAt, groups_openAt]
    simp [opens, h]

theorem leaves_foldl (ps : List Piece) : Node.leavesList (ps.foldl (step g) c).tree =
    Node.leavesList c.tree ++ (ps.filter g.keeps).map (·.text) := by
  induction ps generalizing c with
  | nil => exact (List.append_nil _).symm
  | cons p ps ih =>
    rw [List.foldl_cons, ih, leaves_step, List.append_assoc, List.filter_cons]
    split_ifs <;> rfl

theorem groups_foldl (ps : List Piece) : Node.groupsList (ps.foldl (step g) c).tree =
    Node.groupsList c.tree + ps.countP g.opens := by
  induction ps generalizing c with
  | nil => rfl
  | cons p ps ih =>
    rw [List.foldl_cons, ih, groups_step, List.countP_cons]
    omega

end
end Cursor

theorem flatten_group (g : Grouping) (ps : List Piece) :
    Tree.flatten (g.group ps) = (ps.filter g.keeps).map (·.text) := by
  rw [group_eq, Tree.flatten_eq, Cursor.leaves_foldl]
  rfl

theorem groups_stats_group (g : Grouping) (ps : List Piece) :
    (Tree.stats (g.group ps)).groups = ps.countP g.opens := by
  rw [Tree.stats_eq, group_eq]
  exact (Cursor.groups_foldl g {} ps).trans (Nat.zero_add _)

end BracketTree.Grouping

namespace BracketTree.Parser

/-- The pieces that are grouped, in either mode. -/
def pieces (r : Rules) (text : String) : List Piece := (vocabulary { rules := r }).split text

/-- What a tree has of the text it was made of. -/
structure Faithful (r : Rules) (text : String) (t : Tree) : Prop where
  flatten_eq : Tree.flatten t =
    ((pieces r text).filter fun p => p.text ≠ "" && !r.strip.contains p.text).map (·.text)
  leaves_eq : (Tree.stats t).leaves = (Tree.flatten t).length
  groups_eq : (Tree.stats t).groups =
    (pieces r text).countP fun p => p.text ≠ "" && r.bounds.contains p.text
  join_pieces : String.join ((pieces r text).map (·.text)) = text
  /-- The leaves spell the text without those of its tokens that are left out. -/
  join_flatten : String.join (Tree.flatten t) =
    String.join (((pieces r text).filter fun p => !(p.isToken && r.strip.contains p.text)).map (·.text))
  join_flatten_of_strip_nil : r.strip = [] → String.join (Tree.flatten t) = text

theorem join_map_filter_congr {ps : List Piece} {a b : Piece → Bool}
    (h : ∀ p ∈ ps, p.text ≠ "" → a p = b p) :
    String.join ((ps.filter a).map (·.text)) = String.join ((ps.filter b).map (·.text)) := by
  induction ps with
  | nil => rfl
  | cons p ps ih =>
    have hps := ih fun q hq => h q (List.mem_cons_of_mem p hq)
    by_cases hp : p.text = ""
    · rw [List.filter_cons, List.filter_cons]
      split_ifs <;> simp [String.join_cons, hp, hps]
    · rw [List.filter_cons, List.filter_cons, h p List.mem_cons_self hp]
      split_ifs <;> simp [String.join_cons, hps]

/-- Content is never a token that is left out, since each of these splits the text. -/
theorem isToken_of_mem_strip {r : Rules} {text : String} {p : Piece} (hp : p ∈ pieces r text)
    (hne : p.text ≠ "") (hs : p.text ∈ r.strip) : p.isToken = true := by
  rw [← Bool.not_eq_false]
  intro hk
  have hm : p.text ∈ r.bounds.entries.flatMap (fun e => [e.1, e.2]) ++ r.separators := by
    refine List.mem_append_right _ ?_
    rw [Rules.separators, List.mem_eraseDups]
    exact List.mem_append_right _ hs
  exact (Vocabulary.segmentation_split _ text).not_inside hp hk hm hne (List.infix_refl _)

theorem faithful_group (r : Rules) (text : String) :
    Faithful r text (Grouping.group ⟨r.bounds, r.strip⟩ (pieces r text)) := by
  have hflat := Grouping.flatten_group ⟨r.bounds, r.strip⟩ (pieces r text)
  have hjoin : String.join ((pieces r text).map (·.text)) = text := Vocabulary.join_split _ text
  have hkept : String.join (Tree.flatten (Grouping.group ⟨r.bounds, r.strip⟩ (pieces r text))) =
      String.join (((pieces r text).filter fun p => !(p.isToken && r.strip.contains p.text)).map (·.text)) := by
    rw [hflat]
    refine join_map_filter_congr fun p hp hne => ?_
    simp only [Grouping.keeps]
    cases hs : r.strip.contains p.text with
    | false => simp [hne]
    | true => simp [isToken_of_mem_strip hp hne (List.contains_iff_mem.1 hs)]
  refine ⟨hflat, ?_, Grouping.groups_stats_group _ _, hjoin, hkept, fun hnil => ?_⟩
  · rw [Tree.stats_eq, Tree.flatten_eq]
  · rw [hkept, hnil, List.filter_eq_self.2 (by simp), hjoin]

/-- A lenient parser always gives a tree, a strict one may refuse the text; a tree that is given has all of the
text. -/
theorem faithful_parse (r : Rules) (text : String) :
    (∃ t, parse ⟨r, .lenient⟩ text = .ok t ∧ Faithful r text t) ∧
      ∀ t, parse ⟨r, .strict⟩ text = .ok t → Faithful r text t := by
  refine ⟨⟨_, rfl, faithful_group r text⟩, fun t ht => ?_⟩
  obtain rfl := Grouping.tree_eq_of_groupStrict ht
  exact faithful_group r text

theorem faithful_parse_space_left_out :
    let r : Rules := ⟨.ofList [("(", ")")], ["\n"], [" "]⟩
    let t : Tree := [.leaf "a", .leaf "\n", .group [.leaf "(", .leaf "b", .leaf ")"]]
    parse ⟨r, .strict⟩ "a \n(b)" = .ok t ∧ Faithful r "a \n(b)" t := by
  intro r t
  have h : parse ⟨r, .strict⟩ "a \n(b)" = .ok t := by decide +kernel
  exact ⟨h, (faithful_parse r "a \n(b)").2 t h⟩

end BracketTree.Parser
