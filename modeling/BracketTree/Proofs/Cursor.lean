import BracketTree.Grouping
import BracketTree.Proofs.Lookup
import BracketTree.Proofs.TreeWalk

/-! Grouping seen from the place where the next piece goes. A cursor holds the nodes of the innermost group, and
for each group around that place how it began and what stands in front of it. Ending all groups from the inside
out gives the tree so far, and in this tree what is put at the cursor stands behind everything else. -/

namespace BracketTree.Grouping

deriving instance DecidableEq for Except

/-- A place in a tree that is being built. -/
structure Cursor where
  /-- The nodes of the innermost group, the last one first. -/
  here : List Node := []
  /-- The groups that have not ended, innermost first, each with the nodes in front of it, the last one first. -/
  around : List (Opening × List Node) := []

/-- The closing tokens that are due after a token, innermost first, when `ks` are due before it: an opening token
makes its own due, and a token that is due innermost is due no longer. -/
def due (bounds : StringMap String) (ks : List String) (t : String) : List String :=
  let ks := (bounds.find? t).toList ++ ks
  if ks.head? = some t then ks.tail else ks

section
variable {bounds : StringMap String} {ks : List String} {t c : String}

theorem due_self (hf : bounds.find? t = some t) : due bounds ks t = ks := by simp [due, hf]

theorem due_open (hf : bounds.find? t = some c) (hne : c ≠ t) : due bounds ks t = c :: ks := by
  simp [due, hf, hne]

theorem due_close (hf : bounds.find? t = none) : due bounds (t :: ks) t = ks := by simp [due, hf]

theorem due_plain (hf : bounds.find? t = none) (hd : ks.head? ≠ some t) : due bounds ks t = ks := by
  simp [due, hf, hd]

end

/-- What a token leaves in the tree as a leaf. -/
def kept (g : Grouping) (t : String) : List Node := if g.strip.contains t then [] else [.leaf t]

theorem kept_of_mem {g : Grouping} {t : String} (h : t ∈ g.strip) : g.kept t = [] :=
  if_pos (List.contains_iff_mem.2 h)

theorem kept_of_not_mem {g : Grouping} {t : String} (h : t ∉ g.strip) : g.kept t = [.leaf t] :=
  if_neg fun hc => h (List.contains_iff_mem.1 hc)

namespace Cursor

def put (c : Cursor) (x : Node) : Cursor := { c with here := x :: c.here }

def enter (c : Cursor) (o : Opening) : Cursor := ⟨[], (o, c.here) :: c.around⟩

def leave : Cursor → Cursor
  | ⟨here, []⟩ => ⟨here, []⟩
  | ⟨here, (_, before) :: around⟩ => ⟨.group here.reverse :: before, around⟩

def awaits (c : Cursor) (t : String) : Bool := c.around.head?.any (·.1.closer == t)

theorem awaits_iff {c : Cursor} {t : String} :
    c.awaits t = true ↔ ∃ o before around, c.around = (o, before) :: around ∧ o.closer = t := by
  obtain ⟨here, _ | ⟨⟨o, before⟩, around⟩⟩ := c
  · simp [awaits]
  · simp [awaits]

/-- The nodes around a group with that group behind them, the last one first. -/
def wrap (here : List Node) (level : Opening × List Node) : List Node := .group here.reverse :: level.2

/-- The tree so far, as if every group ended at the cursor. -/
def tree (c : Cursor) : Tree := (c.around.foldl wrap c.here).reverse

def openAt (g : Grouping) (c : Cursor) (p : Piece) : Cursor :=
  match g.bounds.find? p.text with
  | some closer => c.enter ⟨p.text, p.offset, closer⟩
  | none => c

def leafAt (g : Grouping) (c : Cursor) (p : Piece) : Cursor :=
  if g.strip.contains p.text then c else c.put (.leaf p.text)

def closeAt (c : Cursor) (p : Piece) : Cursor := if c.awaits p.text then c.leave else c

def step (g : Grouping) (c : Cursor) (p : Piece) : Cursor :=
  if p.text = "" then c else ((c.openAt g p).leafAt g p).closeAt p

/-- Whether a piece is a closing token where none is due. -/
def strays (g : Grouping) (c : Cursor) (p : Piece) : Bool :=
  p.text ≠ "" && !g.bounds.contains p.text && g.bounds.values.contains p.text && !c.awaits p.text

/-- Takes in one piece, unless it is a closing token where none is due. -/
def strictStep (g : Grouping) (c : Cursor) (p : Piece) : Except Error Cursor :=
  if c.strays g p then .error (.unexpectedClose p.text p.offset) else .ok (c.step g p)

def close (c : Cursor) : Except Error Tree :=
  match c.around with
  | [] => .ok c.tree
  | (o, _) :: _ => .error (.unbalanced c.around.length o.token o.offset)

/-! What a piece does, by its part in the rules. -/

section
variable {g : Grouping} {p : Piece}

theorem leafAt_eq (g : Grouping) (c : Cursor) (p : Piece) :
    c.leafAt g p = ⟨g.kept p.text ++ c.here, c.around⟩ := by
  unfold leafAt kept put
  split_ifs <;> rfl

theorem step_empty (c : Cursor) (h : p.text = "") : c.step g p = c := if_pos h

/-- A token that opens and closes its group makes a group of its own. -/
theorem step_self (c : Cursor) (h : p.text ≠ "") (hf : g.bounds.find? p.text = some p.text) :
    c.step g p = c.put (.group (g.kept p.text)) := by
  rw [step, if_neg h, leafAt_eq]
  simp only [openAt, hf, enter, closeAt, awaits, List.head?_cons, Option.any_some, beq_self_eq_true, if_true,
    leave, put, kept]
  split_ifs <;> rfl

theorem step_open {closer : String} (c : Cursor) (h : p.text ≠ "") (hf : g.bounds.find? p.text = some closer)
    (hne : closer ≠ p.text) :
    c.step g p = ⟨g.kept p.text, (⟨p.text, p.offset, closer⟩, c.here) :: c.around⟩ := by
  rw [step, if_neg h, leafAt_eq]
  simp [openAt, hf, enter, closeAt, awaits, hne]

theorem step_close (c : Cursor) (h : p.text ≠ "") (hf : g.bounds.find? p.text = none)
    (ha : c.awaits p.text = true) : c.step g p = leave ⟨g.kept p.text ++ c.here, c.around⟩ := by
  rw [step, if_neg h, leafAt_eq]
  simp only [openAt, hf]
  exact if_pos ha

theorem step_plain (c : Cursor) (h : p.text ≠ "") (hf : g.bounds.find? p.text = none)
    (ha : c.awaits p.text = false) : c.step g p = ⟨g.kept p.text ++ c.here, c.around⟩ := by
  rw [step, if_neg h, leafAt_eq]
  simp only [openAt, hf]
  exact if_neg (Bool.eq_false_iff.1 ha)

end

/-! The tree so far. -/

theorem tree_leave (c : Cursor) : c.leave.tree = c.tree := by
  obtain ⟨here, _ | ⟨l, around⟩⟩ := c <;> rfl

theorem tree_enter (c : Cursor) (o : Opening) : (c.enter o).tree = (c.put (.group [])).tree := rfl

theorem tree_closeAt (c : Cursor) (p : Piece) : (c.closeAt p).tree = c.tree := by
  unfold closeAt
  split_ifs
  · exact tree_leave c
  · rfl

/-- What adds up along a row, and grows with the last child of a group as with a node behind the group, grows by a
node when this is put at the cursor. -/
theorem measure_put {α : Type} {f : List Node → α} {h : Node → α} {op : α → α → α}
    (hrow : ∀ xs x, f (xs ++ [x]) = op (f xs) (h x))
    (hgroup : ∀ a xs x, op a (h (.group (xs ++ [x]))) = op (op a (h (.group xs))) (h x)) (c : Cursor) (x : Node) :
    f (c.put x).tree = op (f c.tree) (h x) := by
  obtain ⟨here, around⟩ := c
  induction around generalizing here x with
  | nil =>
    simp only [tree, put, List.foldl_nil, List.reverse_cons]
    exact hrow _ _
  | cons l around ih =>
    -- both sides put a group behind what stands in front of it, and the two groups differ by `x` at the end
    have hx := ih (.group (here.reverse ++ [x])) l.2
    have hg := ih (.group here.reverse) l.2
    simp only [put, tree] at hx hg
    simp only [put, tree, List.foldl_cons, wrap, List.reverse_cons, hx, hg]
    exact hgroup _ _ _

theorem leaves_put (c : Cursor) (x : Node) :
    Node.leavesList (c.put x).tree = Node.leavesList c.tree ++ x.leaves := by
  have hrow : ∀ xs y, Node.leavesList (xs ++ [y]) = Node.leavesList xs ++ y.leaves := by
    intro xs y
    rw [Node.leavesList_append, Node.leavesList, Node.leavesList, List.append_nil]
  refine measure_put hrow (fun a xs y => ?_) c x
  rw [Node.leaves, Node.leaves, hrow, List.append_assoc]

theorem groups_put (c : Cursor) (x : Node) :
    Node.groupsList (c.put x).tree = Node.groupsList c.tree + x.groups := by
  have hrow : ∀ xs y, Node.groupsList (xs ++ [y]) = Node.groupsList xs + y.groups := by
    intro xs y
    rw [Node.groupsList_append, Node.groupsList, Node.groupsList, Nat.add_zero]
  refine measure_put hrow (fun a xs y => ?_) c x
  rw [Node.groups, Node.groups, hrow]
  omega

/-! The closing tokens that are due. -/

/-- The closing tokens the groups around a cursor wait for, innermost first. -/
def closers (c : Cursor) : List String := c.around.map (·.1.closer)

theorem head?_closers (c : Cursor) (t : String) : c.closers.head? = some t ↔ c.awaits t = true := by
  rw [closers, awaits, List.head?_map]
  cases c.around.head? <;> simp

theorem closers_step (c : Cursor) (g : Grouping) (p : Piece) (h : p.text ≠ "") :
    (c.step g p).closers = due g.bounds c.closers p.text := by
  cases hf : g.bounds.find? p.text with
  | some closer =>
    by_cases hne : closer = p.text
    · subst hne
      rw [step_self c h hf, due_self hf]
      rfl
    · rw [step_open c h hf hne, due_open hf hne]
      rfl
  | none =>
    cases ha : c.awaits p.text with
    | true =>
      have hd := (head?_closers c p.text).2 ha
      rw [step_close c h hf ha]
      obtain ⟨here, _ | ⟨l, around⟩⟩ := c
      · simp [closers] at hd
      · have hl : l.1.closer = p.text := Option.some.inj hd
        simp only [closers, List.map_cons, hl, due_close hf]
        rfl
    | false =>
      rw [step_plain c h hf ha, due_plain hf fun hd => by simp [(head?_closers c p.text).1 hd] at ha]
      rfl

end Cursor
end BracketTree.Grouping
