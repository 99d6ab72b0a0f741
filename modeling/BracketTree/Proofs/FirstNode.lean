import BracketTree.Proofs.Simulation

/-! Grouping that records nothing of its groups. The tree grows at its end, where some groups have not ended, each of
them the last node of the row around it. What ends the innermost one is read off its first node, which is the token
that opened it unless that was left out. So the trees are those of grouping with recorded closing tokens. -/

namespace BracketTree.Grouping

/-- A tree that is growing, and how many groups at its end have not ended. -/
structure Growth where
  tree : Tree := []
  depth : Nat := 0

namespace Growth

/-- The row that is some groups deep at the end of another. -/
def endRow : (depth : Nat) → List Node → List Node
  | 0, row => row
  | depth + 1, row =>
    match row.getLast? with
    | some (.group inner) => endRow depth inner
    | _ => []

def changeEnd (f : List Node → List Node) : (depth : Nat) → List Node → List Node
  | 0, row => f row
  | depth + 1, row =>
    match row.getLast? with
    | some (.group inner) => row.dropLast ++ [.group (changeEnd f depth inner)]
    | _ => row

def top (s : Growth) : List Node := endRow s.depth s.tree

def append (s : Growth) (x : Node) : Growth := { s with tree := changeEnd (· ++ [x]) s.depth s.tree }

def openAt (g : Grouping) (s : Growth) (t : String) : Growth :=
  if g.bounds.contains t then { s.append (.group []) with depth := s.depth + 1 } else s

def leafAt (g : Grouping) (s : Growth) (t : String) : Growth :=
  if g.strip.contains t then s else s.append (.leaf t)

/-- Whether the innermost group begins with an opening token that `t` closes. -/
def ends (g : Grouping) (s : Growth) (t : String) : Bool :=
  0 < s.depth &&
    match s.top.head? with
    | some (.leaf k) => g.bounds.find? k == some t
    | _ => false

def closeAt (g : Grouping) (s : Growth) (t : String) : Growth :=
  if s.ends g t then { s with depth := s.depth - 1 } else s

def step (g : Grouping) (s : Growth) (p : Piece) : Growth :=
  if p.text = "" then s else ((s.openAt g p.text).leafAt g p.text).closeAt g p.text

theorem endRow_succ (n : Nat) (row : List Node) : endRow (n + 1) row = endRow 1 (endRow n row) := by
  induction n generalizing row with
  | zero => rfl
  | succ n ih =>
    change (match row.getLast? with | some (.group inner) => endRow (n + 1) inner | _ => []) =
      endRow 1 (match row.getLast? with | some (.group inner) => endRow n inner | _ => [])
    cases row.getLast? with
    | none => rfl
    | some x =>
      cases x with
      | leaf s => rfl
      | group inner => exact ih inner

theorem changeEnd_succ (f : List Node → List Node) (n : Nat) (row : List Node) :
    changeEnd f (n + 1) row = changeEnd (changeEnd f 1) n row := by
  induction n generalizing row with
  | zero => rfl
  | succ n ih =>
    rw [changeEnd, changeEnd]
    cases row.getLast? with
    | none => rfl
    | some x =>
      cases x with
      | leaf s => rfl
      | group inner => simp only [ih inner]

end Growth

def groupByFirst (g : Grouping) (ps : List Piece) : Tree := (ps.foldl (Growth.step g) {}).tree

namespace Cursor

/-- What is left of a cursor when the record of its groups is forgotten. -/
def growth (c : Cursor) : Growth := ⟨c.tree, c.around.length⟩

theorem endRow_tree (c : Cursor) : Growth.endRow c.around.length c.tree = c.here.reverse := by
  obtain ⟨here, around⟩ := c
  induction around generalizing here with
  | nil => rfl
  | cons l around ih =>
    -- one group further in than the row around it, whose last node is the group itself
    have h := ih (wrap here l)
    change Growth.endRow (around.length + 1) (tree ⟨wrap here l, around⟩) = here.reverse
    rw [Growth.endRow_succ, h]
    simp [wrap, Growth.endRow]

theorem changeEnd_tree (f : List Node → List Node) (c : Cursor) :
    Growth.changeEnd f c.around.length c.tree = tree ⟨(f c.here.reverse).reverse, c.around⟩ := by
  obtain ⟨here, around⟩ := c
  induction around generalizing here f with
  | nil => simp [tree, Growth.changeEnd]
  | cons l around ih =>
    have h := ih (Growth.changeEnd f 1) (wrap here l)
    change Growth.changeEnd f (around.length + 1) (tree ⟨wrap here l, around⟩) =
      tree ⟨wrap (f here.reverse).reverse l, around⟩
    rw [Growth.changeEnd_succ, h]
    simp [wrap, Growth.changeEnd]

theorem growth_put (c : Cursor) (x : Node) : (c.put x).growth = c.growth.append x := by
  have h := changeEnd_tree (· ++ [x]) c
  simp only [List.reverse_append, List.reverse_reverse] at h
  exact congrArg (Growth.mk · c.around.length) h.symm

/-- Each group that has not ended begins with its opening token, and waits for what the pairs say. -/
def Headed (bounds : StringMap String) : List Node → List (Opening × List Node) → Prop
  | _, [] => True
  | here, (o, before) :: around =>
    here.getLast? = some (.leaf o.token) ∧ bounds.find? o.token = some o.closer ∧ Headed bounds before around

section
variable {g : Grouping} {c : Cursor}

theorem Headed.put {bounds : StringMap String} (h : Headed bounds c.here c.around) (x : Node) :
    Headed bounds (c.put x).here (c.put x).around := by
  obtain ⟨here, _ | ⟨⟨o, before⟩, around⟩⟩ := c
  · trivial
  · obtain ⟨hf, hc⟩ := h
    refine ⟨?_, hc⟩
    change (x :: here).getLast? = _
    rw [List.getLast?_cons, hf]
    rfl

theorem Headed.leave {bounds : StringMap String} (h : Headed bounds c.here c.around) :
    Headed bounds c.leave.here c.leave.around := by
  obtain ⟨here, _ | ⟨⟨o, before⟩, around⟩⟩ := c
  · trivial
  · exact Headed.put (c := ⟨before, around⟩) h.2.2 _

/-- An opening token stands in its own group at once, because it is not left out. -/
theorem Headed.leafAt_openAt (h : Headed g.bounds c.here c.around)
    (hs : ∀ t ∈ g.strip, g.bounds.contains t = false) (p : Piece) :
    Headed g.bounds ((c.openAt g p).leafAt g p).here ((c.openAt g p).leafAt g p).around := by
  rw [leafAt_eq]
  unfold openAt
  cases hf : g.bounds.find? p.text with
  | some closer =>
    have hk : p.text ∉ g.strip := by
      intro hm
      have hc := hs p.text hm
      rw [StringMap.contains_of_find? hf] at hc
      cases hc
    rw [kept_of_not_mem hk]
    exact ⟨rfl, hf, h⟩
  | none =>
    unfold kept
    split_ifs
    · exact h
    · exact h.put _

/-- The first node of the innermost group says what its record says. -/
theorem Headed.ends_growth (h : Headed g.bounds c.here c.around) (t : String) :
    c.growth.ends g t = c.awaits t := by
  unfold Growth.ends Growth.top
  change (0 < c.around.length && match (Growth.endRow c.around.length c.tree).head? with
    | some (.leaf k) => g.bounds.find? k == some t
    | _ => false) = c.awaits t
  rw [endRow_tree, List.head?_reverse]
  obtain ⟨here, _ | ⟨⟨o, before⟩, around⟩⟩ := c
  · rfl
  · obtain ⟨hf, hc, -⟩ := h
    simp [hf, hc, awaits]

theorem growth_openAt (c : Cursor) (p : Piece) : (c.openAt g p).growth = c.growth.openAt g p.text := by
  unfold openAt Growth.openAt
  rw [StringMap.contains_eq_isSome]
  cases g.bounds.find? p.text with
  | none => rfl
  | some closer =>
    simp only [Option.isSome_some, if_true]
    rw [← growth_put]
    rfl

theorem growth_leafAt (c : Cursor) (p : Piece) : (c.leafAt g p).growth = c.growth.leafAt g p.text := by
  unfold leafAt Growth.leafAt
  split_ifs
  · rfl
  · exact growth_put c _

theorem growth_leave (c : Cursor) : c.leave.growth = { c.growth with depth := c.growth.depth - 1 } := by
  unfold growth
  rw [tree_leave]
  obtain ⟨here, _ | ⟨l, around⟩⟩ := c
  · rfl
  · rfl

/-- One piece: the record and the first nodes lead to the same place, and the groups stay headed. -/
theorem Headed.step (h : Headed g.bounds c.here c.around)
    (hs : ∀ t ∈ g.strip, g.bounds.contains t = false) (p : Piece) :
    (c.step g p).growth = c.growth.step g p ∧ Headed g.bounds (c.step g p).here (c.step g p).around := by
  unfold Cursor.step Growth.step
  split_ifs with he
  · exact ⟨rfl, h⟩
  · have hleaf := h.leafAt_openAt hs p
    rw [← growth_openAt, ← growth_leafAt]
    unfold closeAt Growth.closeAt
    rw [hleaf.ends_growth]
    split_ifs
    · exact ⟨growth_leave _, hleaf.leave⟩
    · exact ⟨rfl, hleaf⟩

theorem Headed.foldl (h : Headed g.bounds c.here c.around)
    (hs : ∀ t ∈ g.strip, g.bounds.contains t = false) (ps : List Piece) :
    (ps.foldl (Cursor.step g) c).growth = ps.foldl (Growth.step g) c.growth := by
  induction ps generalizing c with
  | nil => rfl
  | cons p ps ih =>
    obtain ⟨hg, hh⟩ := h.step hs p
    rw [List.foldl_cons, List.foldl_cons, ← hg]
    exact ih hh

end
end Cursor

/-- When no opening token is left out, a group can be ended by its first node as well as by its recorded closing
token. -/
theorem group_eq_groupByFirst (g : Grouping) (hs : ∀ t ∈ g.strip, g.bounds.contains t = false)
    (ps : List Piece) : g.group ps = g.groupByFirst ps := by
  have h : Cursor.Headed g.bounds ({} : Cursor).here ({} : Cursor).around := trivial
  rw [group_eq]
  exact congrArg Growth.tree (h.foldl hs ps)

theorem group_eq_groupByFirst_entangled :
    let g : Grouping := ⟨.ofList [("(", ")"), ("|", "|"), ("<", "("), ("[", "]")], [" ", ")"]⟩
    let ps : List Piece := [⟨true, "]", 0⟩, ⟨true, "<", 1⟩, ⟨true, " ", 2⟩, ⟨true, "(", 3⟩, ⟨true, "|", 4⟩,
      ⟨false, "a", 5⟩, ⟨true, ")", 6⟩, ⟨true, "[", 7⟩, ⟨true, "]", 8⟩, ⟨true, "[", 9⟩]
    let t : Tree := [.leaf "]", .group [.leaf "<", .group [.leaf "(", .group [.leaf "|"], .leaf "a"],
      .group [.leaf "[", .leaf "]"], .group [.leaf "["]]]
    (∀ s ∈ g.strip, g.bounds.contains s = false) ∧ g.group ps = t ∧ g.groupByFirst ps = t := by
  intro g ps t
  have hs : ∀ s ∈ g.strip, g.bounds.contains s = false := by decide
  have ht : g.group ps = t := by decide
  exact ⟨hs, ht, (group_eq_groupByFirst g hs ps).symm.trans ht⟩

end BracketTree.Grouping
