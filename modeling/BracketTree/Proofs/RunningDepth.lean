import BracketTree.Proofs.StrictErrors

/-! How deep the groups of a text nest can be read off its texts alone, with a stack of closing tokens: an opening token
pushes the one it waits for, and a token that is on top is popped. The stack is as high as there are groups around the
next piece, so its greatest height right after a push is the depth of the tree, and its height at the end is the number
of groups that have not ended. -/

namespace BracketTree

namespace Grouping

/-- The closing tokens that are due, innermost first, and what has been done with them. -/
structure CloserStack where
  tokens : List String := []
  /-- The greatest height right after a push. -/
  peak : Nat := 0
  pops : Nat := 0
deriving DecidableEq, Repr

namespace CloserStack

def height (k : CloserStack) : Nat := k.tokens.length

def push (k : CloserStack) (closer : String) : CloserStack :=
  { k with tokens := closer :: k.tokens, peak := max k.peak (k.height + 1) }

def pop (k : CloserStack) : CloserStack := { k with tokens := k.tokens.tail, pops := k.pops + 1 }

def opened (bounds : StringMap String) (k : CloserStack) (t : String) : CloserStack :=
  match bounds.find? t with
  | some closer => k.push closer
  | none => k

def closed (k : CloserStack) (t : String) : CloserStack := if k.tokens.head? = some t then k.pop else k

def take (bounds : StringMap String) (k : CloserStack) (t : String) : CloserStack := (k.opened bounds t).closed t

/-- What texts leave of an empty stack. -/
def after (bounds : StringMap String) (ts : List String) : CloserStack := ts.foldl (take bounds) {}

section
variable {bounds : StringMap String} {k : CloserStack} {t o c : String} {ts : List String}

theorem peak_closed (k : CloserStack) (t : String) : (k.closed t).peak = k.peak := by
  unfold closed
  split_ifs <;> rfl

/-- Only opening tokens raise the peak. -/
theorem peak_foldl (h : ∀ t ∈ ts, bounds.contains t = false) : (ts.foldl (take bounds) k).peak = k.peak := by
  induction ts generalizing k with
  | nil => rfl
  | cons t ts ih =>
    have ht := (StringMap.contains_eq_false_iff _ _).1 (h t List.mem_cons_self)
    have hk : k.opened bounds t = k := by rw [opened, ht]
    rw [List.foldl_cons, ih fun s hs => h s (List.mem_cons_of_mem t hs), take, peak_closed, hk]

theorem after_replicate (hf : bounds.find? o = some c) (hne : c ≠ o) (n : Nat) :
    after bounds (List.replicate n o) = ⟨List.replicate n c, n, 0⟩ := by
  induction n with
  | zero => rfl
  | succ n ih =>
    rw [after] at ih
    rw [after, List.replicate_succ', List.foldl_append, ih]
    simp [take, opened, hf, push, closed, hne, height, List.replicate_succ]

/-- Copies of an opening token with no further opening token behind them. -/
theorem peak_after_replicate_append (hf : bounds.find? o = some c) (hne : c ≠ o)
    (h : ∀ t ∈ ts, bounds.contains t = false) (n : Nat) : (after bounds (List.replicate n o ++ ts)).peak = n := by
  have hn := after_replicate hf hne n
  rw [after] at hn
  rw [after, List.foldl_append, peak_foldl h, hn]

end
end CloserStack

namespace Cursor

theorem nesting_put (c : Cursor) (x : Node) :
    Node.nestingList (c.put x).tree = max (Node.nestingList c.tree) (Tree.reach c.around.length x.nesting) := by
  obtain ⟨here, around⟩ := c
  induction around generalizing here x with
  | nil =>
    simp only [tree, put, List.foldl_nil, List.reverse_cons, Node.nestingList_append, Node.nestingList,
      Nat.max_zero, List.length_nil, Tree.reach_zero]
  | cons l around ih =>
    -- both sides put a group behind what stands in front of it, and the two groups differ by `x` at the end
    have hx := ih (.group (here.reverse ++ [x])) l.2
    have hg := ih (.group here.reverse) l.2
    simp only [put, tree] at hx hg
    simp only [put, tree, List.foldl_cons, wrap, List.reverse_cons, hx, hg]
    rw [Node.nesting, Node.nesting, Node.nestingList_append, Node.nestingList, Node.nestingList, Nat.max_zero,
      Tree.reach_last, Nat.max_assoc, List.length_cons]

/-- What a stack of closing tokens shows of a cursor. -/
structure Tracks (k : CloserStack) (c : Cursor) : Prop where
  tokens : k.tokens = c.closers
  peak : Node.nestingList c.tree = k.peak
  groups : Node.groupsList c.tree = k.pops + k.height

namespace Tracks
variable {k : CloserStack} {c : Cursor}

theorem init : Tracks {} {} := ⟨rfl, rfl, rfl⟩

theorem height_eq (h : Tracks k c) : k.height = c.around.length := by
  rw [CloserStack.height, h.tokens, closers, List.length_map]

theorem openAt (h : Tracks k c) (g : Grouping) (p : Piece) : Tracks (k.opened g.bounds p.text) (c.openAt g p) := by
  unfold CloserStack.opened Cursor.openAt
  cases g.bounds.find? p.text with
  | none => exact h
  | some closer =>
    refine ⟨congrArg (closer :: ·) h.tokens, ?_, ?_⟩
    · change Node.nestingList (c.enter _).tree = max k.peak (k.height + 1)
      rw [tree_enter, nesting_put, h.peak, h.height_eq]
      rfl
    · change Node.groupsList (c.enter _).tree = k.pops + (k.height + 1)
      rw [tree_enter, groups_put, h.groups]
      rfl

theorem leafAt (h : Tracks k c) (g : Grouping) (p : Piece) : Tracks k (c.leafAt g p) := by
  refine ⟨?_, ?_, ?_⟩
  · rw [leafAt_eq]
    exact h.tokens
  · unfold Cursor.leafAt
    split_ifs
    · exact h.peak
    · rw [nesting_put]
      exact (Nat.max_zero _).trans h.peak
  · rw [groups_leafAt]
    exact h.groups

theorem leave (h : Tracks k c) (ha : c.around ≠ []) : Tracks k.pop c.leave := by
  have hpos : k.height = (k.height - 1) + 1 := by
    have hlen := List.length_pos_of_ne_nil ha
    rw [h.height_eq]
    omega
  refine ⟨?_, ?_, ?_⟩
  · obtain ⟨here, _ | ⟨l, around⟩⟩ := c
    · exact absurd rfl ha
    · exact congrArg List.tail h.tokens
  · rw [tree_leave]
    exact h.peak
  · have hp : k.pop.height = k.height - 1 := List.length_tail
    rw [tree_leave, h.groups, hp]
    change _ = k.pops + 1 + _
    omega

theorem closeAt (h : Tracks k c) (p : Piece) : Tracks (k.closed p.text) (c.closeAt p) := by
  unfold CloserStack.closed Cursor.closeAt
  rw [h.tokens]
  by_cases ha : c.awaits p.text = true
  · rw [if_pos ((c.head?_closers p.text).2 ha), if_pos ha]
    obtain ⟨o, before, around, hc, -⟩ := awaits_iff.1 ha
    exact h.leave (hc ▸ List.cons_ne_nil _ _)
  · rw [if_neg fun hd => ha ((c.head?_closers p.text).1 hd), if_neg ha]
    exact h

theorem step (h : Tracks k c) (g : Grouping) {p : Piece} (hp : p.text ≠ "") :
    Tracks (k.take g.bounds p.text) (c.step g p) := by
  rw [Cursor.step, if_neg hp]
  exact ((h.openAt g p).leafAt g p).closeAt p

theorem foldl (h : Tracks k c) (g : Grouping) (ps : List Piece) :
    Tracks ((words ps).foldl (CloserStack.take g.bounds) k) (ps.foldl (Cursor.step g) c) := by
  induction ps generalizing k c with
  | nil => exact h
  | cons p ps ih =>
    by_cases hp : p.text = ""
    · rw [words_cons_of_eq hp, List.foldl_cons, c.step_empty hp]
      exact ih h
    · rw [words_cons_of_ne hp]
      exact ih (h.step g hp)

end Tracks
end Cursor

/-- What the stack of closing tokens says of the tree of some pieces. -/
structure RunningDepth (g : Grouping) (ps : List Piece) (k : CloserStack) : Prop where
  depth_eq : (Tree.stats (g.group ps)).depth = k.peak
  groups_eq : (Tree.stats (g.group ps)).groups = k.pops + k.height
  /-- The height at the end is the depth that strict grouping tells. -/
  unbalanced : ∀ d t n, g.groupStrict ps = .error (.unbalanced d t n) → d = k.height
  /-- So many copies of a pair around texts that open nothing nest so deep. Empty texts count for nothing. -/
  nested : ∀ n o c us, g.bounds.find? o = some c → c ≠ o → g.bounds.contains c = false →
    (∀ u ∈ us, g.bounds.contains u = false) →
    words ps = List.replicate n o ++ (us ++ List.replicate n c).filter (· ≠ "") →
    (Tree.stats (g.group ps)).depth = n

/-- The stack goes along with the cursor piece by piece, so what it has counted is what the tree shows. -/
theorem runningDepth_group (g : Grouping) (ps : List Piece) :
    RunningDepth g ps (.after g.bounds (words ps)) := by
  have htracks := Cursor.Tracks.init.foldl g ps
  have hdepth : (Tree.stats (g.group ps)).depth = (CloserStack.after g.bounds (words ps)).peak := by
    rw [Tree.stats_eq, group_eq]
    exact htracks.peak
  refine ⟨hdepth, ?_, ?_, ?_⟩
  · rw [Tree.stats_eq, group_eq]
    exact htracks.groups
  · intro d t n he
    obtain ⟨c, o, os, hrun, -, rfl, -⟩ := groupStrict_eq_unbalanced_iff.1 he
    rw [Cursor.foldl_eq_of_foldlM g hrun] at htracks
    exact (List.length_map _).trans htracks.height_eq.symm
  · intro n o c us hf hne hc hus hw
    rw [hdepth, hw]
    refine CloserStack.peak_after_replicate_append hf hne (fun t ht => ?_) n
    rcases List.mem_append.1 (List.mem_filter.1 ht).1 with hu | hu
    · exact hus t hu
    · rwa [List.eq_of_mem_replicate hu]

theorem runningDepth_group_two_open :
    let g : Grouping := ⟨.ofList [("(", ")"), ("|", "|")], [" "]⟩
    let ps : List Piece := [⟨true, "(", 0⟩, ⟨true, "|", 1⟩, ⟨true, " ", 2⟩, ⟨true, "(", 3⟩, ⟨false, "a", 4⟩]
    let qs : List Piece := [⟨true, "(", 0⟩, ⟨false, "", 1⟩, ⟨true, "(", 1⟩, ⟨false, "a", 2⟩, ⟨true, ")", 3⟩,
      ⟨false, "", 4⟩, ⟨true, ")", 4⟩]
    g.groupStrict ps = .error (.unbalanced 2 "(" 3) ∧ (CloserStack.after g.bounds (words ps)).height = 2 ∧
      CloserStack.after g.bounds (words ps) = ⟨[")", ")"], 2, 1⟩ ∧
      (Tree.stats (g.group ps)).depth = 2 ∧ (Tree.stats (g.group ps)).groups = 3 ∧
      (Tree.stats (g.group qs)).depth = 2 := by
  intro g ps qs
  have he : g.groupStrict ps = .error (.unbalanced 2 "(" 3) := by decide
  have hk : CloserStack.after g.bounds (words ps) = ⟨[")", ")"], 2, 1⟩ := by decide
  obtain ⟨hdepth, hgroups, hunbalanced, -⟩ := runningDepth_group g ps
  have hq := (runningDepth_group g qs).nested 2 "(" ")" ["a"]
  refine ⟨he, (hunbalanced 2 "(" 3 he).symm, hk, ?_, ?_, ?_⟩
  · rw [hdepth, hk]
  · rw [hgroups, hk]
    rfl
  · exact hq (by decide) (by decide) (by decide) (by decide) (by decide)

end Grouping
end BracketTree
