import BracketTree.Proofs.QuotedText
import BracketTree.Proofs.TreeWalk
import BracketTree.Tree.Outline

/-! The lines of an outline. A leaf has one line and a group has two, with the lines of what it holds between them, and
each line stands two blanks deeper for each group around it. As a line shows where it ends and what stands in it, and
the line that ends a group is no line of what the group holds, an outline shows its tree: no two trees have the same. -/

namespace BracketTree

namespace Outline

/-- What stands in a line behind the blanks. -/
inductive Mark where
  | leaf (text : String)
  /-- A group begins. -/
  | opening
  /-- A group ends. -/
  | closing
deriving DecidableEq, Repr

def Mark.text : Mark → String
  | leaf s => Text.quoted s
  | opening => "["
  | closing => "]"

/-- A line of an outline, with so many groups around it. -/
structure Line where
  around : Nat
  mark : Mark
deriving DecidableEq, Repr

def Line.text (l : Line) : String := String.ofList (List.replicate (2 * l.around) ' ') ++ l.mark.text

end Outline

namespace Node
open Outline

mutual
/-- The lines of a node that has so many groups around it. -/
def lines (around : Nat) : Node → List Line
  | leaf s => [⟨around, .leaf s⟩]
  | group xs => ⟨around, .opening⟩ :: (linesList (around + 1) xs ++ [⟨around, .closing⟩])

def linesList (around : Nat) : List Node → List Line
  | [] => []
  | x :: xs => x.lines around ++ linesList around xs
end

theorem linesList_eq_flatMap (around : Nat) (xs : List Node) : linesList around xs = xs.flatMap (lines around) := by
  induction xs with
  | nil => rfl
  | cons x xs ih => rw [linesList, ih, List.flatMap_cons]

theorem length_linesList {xs : List Node}
    (h : ∀ x ∈ xs, ∀ around, (x.lines around).length = x.leaves.length + 2 * x.groups) (around : Nat) :
    (linesList around xs).length = (leavesList xs).length + 2 * groupsList xs := by
  induction xs with
  | nil => rfl
  | cons x xs ih =>
    have hx := h x List.mem_cons_self around
    have hxs := ih fun y hy => h y (List.mem_cons_of_mem x hy)
    rw [linesList, leavesList, groupsList, List.length_append, List.length_append, hx, hxs]
    omega

theorem length_lines (x : Node) (around : Nat) : (x.lines around).length = x.leaves.length + 2 * x.groups := by
  induction x using Node.induct generalizing around with
  | leaf s => rfl
  | group xs ih =>
    have hxs := length_linesList ih (around + 1)
    rw [lines, leaves, groups, List.length_cons, List.length_append, hxs, List.length_singleton]
    omega

/-- The line that ends a group begins no node. -/
theorem closing_cons_ne (around n : Nat) (x : Node) (ls ms : List Line) :
    (⟨n, .closing⟩ :: ls : List Line) ≠ x.lines around ++ ms := by
  intro h
  cases x with
  | leaf s => cases (List.cons.inj h).1
  | group xs => cases (List.cons.inj h).1

theorem lines_ne_nil (around : Nat) (x : Node) : x.lines around ≠ [] := by
  cases x with
  | leaf s => exact List.cons_ne_nil _ _
  | group xs => exact List.cons_ne_nil _ _

theorem delimited_lines (x : Node) (around : Nat) : Delimited (lines around) x := by
  induction x using Node.induct generalizing around with
  | leaf s =>
    intro y ls ms h
    cases y with
    | leaf s' =>
      obtain ⟨hl, hrest⟩ := List.cons.inj h
      cases hl
      exact ⟨rfl, hrest⟩
    | group ys => cases (List.cons.inj h).1
  | group xs ih =>
    intro y ls ms h
    cases y with
    | leaf s' => cases (List.cons.inj h).1
    | group ys =>
      have hrest : linesList (around + 1) xs ++ [⟨around, .closing⟩] ++ ls =
          linesList (around + 1) ys ++ [⟨around, .closing⟩] ++ ms := (List.cons.inj h).2
      rw [linesList_eq_flatMap, linesList_eq_flatMap, List.append_assoc, List.append_assoc] at hrest
      -- what the two groups hold goes on to the first line that begins no node
      obtain ⟨rfl, hend⟩ := flatMap_append_inj (fun x hx => ih x hx (around + 1))
        (fun y u => closing_cons_ne _ _ y _ u) (fun x u => closing_cons_ne _ _ x _ u) hrest
      exact ⟨rfl, (List.cons.inj hend).2⟩

theorem linesList_inj {around : Nat} {xs ys : List Node} (h : linesList around xs = linesList around ys) : xs = ys := by
  rw [linesList_eq_flatMap, linesList_eq_flatMap] at h
  exact flatMap_inj (fun x => x.delimited_lines around) (lines_ne_nil around) h

end Node

/-! Lines as characters. -/

namespace Outline

namespace Mark

theorem ends_text (m : Mark) : Text.Ends (· = ' ') m.text.toList := by
  cases m with
  | leaf s =>
    rw [text, Text.toList_quoted]
    exact Text.ends_cons (by decide) _
  | opening => exact Text.ends_cons (by decide) _
  | closing => exact Text.ends_cons (by decide) _

theorem line_break_not_mem_text (m : Mark) : '\n' ∉ m.text.toList := by
  cases m with
  | leaf s => exact Text.line_break_not_mem_quoted s
  | opening => decide
  | closing => decide

theorem text_inj {m n : Mark} (h : m.text = n.text) : m = n := by
  cases m with
  | leaf s =>
    cases n with
    | leaf s' => exact congrArg leaf (Text.quoted_inj h)
    | opening => exact absurd h (Text.quoted_ne_ofList s (by decide) [])
    | closing => exact absurd h (Text.quoted_ne_ofList s (by decide) [])
  | opening =>
    cases n with
    | leaf s' => exact absurd h.symm (Text.quoted_ne_ofList s' (by decide) [])
    | opening => rfl
    | closing => exact absurd h (by decide)
  | closing =>
    cases n with
    | leaf s' => exact absurd h.symm (Text.quoted_ne_ofList s' (by decide) [])
    | opening => exact absurd h (by decide)
    | closing => rfl

end Mark

namespace Line

theorem toList_text (l : Line) : l.text.toList = List.replicate (2 * l.around) ' ' ++ l.mark.text.toList := by
  rw [text, String.toList_append, String.toList_ofList]

theorem line_break_not_mem_text (l : Line) : '\n' ∉ l.text.toList := by
  rw [toList_text]
  intro h
  rcases List.mem_append.1 h with h | h
  · exact absurd (List.eq_of_mem_replicate h) (by decide)
  · exact l.mark.line_break_not_mem_text h

theorem text_inj {l m : Line} (h : l.text = m.text) : l = m := by
  have hblank : ∀ n, ∀ c ∈ List.replicate n ' ', decide (c = ' ') = true :=
    fun n c hc => decide_eq_true (List.eq_of_mem_replicate hc)
  have hchars := congrArg String.toList h
  rw [toList_text, toList_text] at hchars
  obtain ⟨hblanks, hmark⟩ :=
    Text.run_append_inj (hblank _) (hblank _) l.mark.ends_text m.mark.ends_text hchars
  have haround : l.around = m.around := by
    have hlen := congrArg List.length hblanks
    rw [List.length_replicate, List.length_replicate] at hlen
    omega
  have hm : l.mark = m.mark := Mark.text_inj (String.toList_injective hmark)
  cases l
  cases m
  cases haround
  cases hm
  rfl

/-- The characters of a line and of the line break behind it. -/
def chars (l : Line) : List Char := l.text.toList ++ ['\n']

theorem delimited_chars (l : Line) : Delimited chars l := by
  have hplain : ∀ l : Line, ∀ c ∈ l.text.toList, decide (c ≠ '\n') = true :=
    fun l c hc => decide_eq_true fun he => l.line_break_not_mem_text (he ▸ hc)
  have hend : ∀ u, Text.Ends (· ≠ '\n') ('\n' :: u) := Text.ends_cons (by decide)
  intro m s t h
  rw [chars, chars, List.append_assoc, List.append_assoc] at h
  obtain ⟨htext, hrest⟩ := Text.run_append_inj (hplain l) (hplain m) (hend s) (hend t) h
  exact ⟨text_inj (String.toList_injective htext), (List.cons.inj hrest).2⟩

theorem chars_ne_nil (l : Line) : l.chars ≠ [] := List.concat_ne_nil _ _

end Line

/-- The text of some lines. -/
def textOf (ls : List Line) : String := String.join (ls.map fun l => l.text ++ "\n")

theorem toList_textOf (ls : List Line) : (textOf ls).toList = ls.flatMap Line.chars := by
  rw [textOf, String.toList_join, List.flatMap_map]
  simp only [String.toList_append]
  rfl

theorem textOf_inj {ls ms : List Line} (h : textOf ls = textOf ms) : ls = ms := by
  have hchars := congrArg String.toList h
  rw [toList_textOf, toList_textOf] at hchars
  exact flatMap_inj Line.delimited_chars Line.chars_ne_nil hchars

theorem textOf_cons (l : Line) (ls : List Line) : textOf (l :: ls) = l.text ++ "\n" ++ textOf ls := by
  rw [textOf, List.map_cons, String.join_cons]
  rfl

end Outline

namespace Tree
open Node Outline

/-- The lines of rows, of which the first has `around` groups around it and each further one has one less. A line that
ends a group stands between two rows. -/
def rowLines (around : Nat) : List (List Node) → List Line
  | [] => []
  | [row] => linesList around row
  | row :: next :: rows =>
    linesList around row ++ ⟨around - 1, .closing⟩ :: rowLines (around - 1) (next :: rows)

theorem rowLines_cons (around : Nat) (x : Node) (row : List Node) (rows : List (List Node)) :
    rowLines around ((x :: row) :: rows) = x.lines around ++ rowLines around (row :: rows) := by
  cases rows with
  | nil => rfl
  | cons next rows => simp only [rowLines, linesList, List.append_assoc]

theorem addLine_textOf (acc : String) (l : Line) (ls : List Line) :
    addLine acc l.around l.mark.text ++ textOf ls = acc ++ textOf (l :: ls) := by
  rw [addLine, textOf_cons, Line.text]
  simp only [String.append_assoc]

theorem outlineFrom_eq (acc : String) (around : Nat) (rows : List (List Node)) :
    outlineFrom acc around rows = acc ++ textOf (rowLines around rows) := by
  induction acc, around, rows using outlineFrom.induct with
  | case1 acc around => simp [outlineFrom, rowLines, textOf]
  | case2 acc around rows ih =>
    rw [outlineFrom]
    cases rows with
    | nil => simp [outlineFrom, rowLines, linesList, textOf]
    | cons row rows => exact Eq.trans ih (addLine_textOf acc ⟨around - 1, .closing⟩ _)
  | case3 acc around s row rows ih =>
    rw [outlineFrom, ih, rowLines_cons]
    exact addLine_textOf acc ⟨around, .leaf s⟩ _
  | case4 acc around xs row rows ih =>
    rw [outlineFrom, ih, rowLines_cons, lines, List.cons_append, List.append_assoc]
    exact addLine_textOf acc ⟨around, .opening⟩ _

theorem outline_eq (t : Tree) : outline t = textOf (linesList 0 t) := by
  rw [outline, outlineFrom_eq, String.empty_append]
  rfl

/-- An outline shows its tree. It is made of the lines of the tree, none of which is broken: one for each leaf and two
for each group. -/
theorem outline_injective_and_lines : Function.Injective outline ∧
    ∀ t, outline t = textOf (linesList 0 t) ∧ (∀ l ∈ linesList 0 t, '\n' ∉ l.text.toList) ∧
      (linesList 0 t).length = (stats t).leaves + 2 * (stats t).groups := by
  refine ⟨fun t u h => ?_, fun t => ⟨outline_eq t, fun l _ => l.line_break_not_mem_text, ?_⟩⟩
  · rw [outline_eq, outline_eq] at h
    exact linesList_inj (textOf_inj h)
  · rw [stats_eq]
    exact length_linesList (fun x _ => x.length_lines) 0

/-- A leaf whose text is the outline of a group. -/
theorem outline_injective_and_lines_leaf_like_group :
    let t : Tree := [.group [.leaf "a"]]
    let u : Tree := [.leaf "[\n  \"a\"\n]"]
    outline t = "[\n  \"a\"\n]\n" ∧ outline u = "\"[\\n  \\\"a\\\"\\n]\"\n" ∧ outline t ≠ outline u ∧
      '\n' ∉ (Line.mk 1 (.leaf "a")).text.toList ∧ (stats t).leaves + 2 * (stats t).groups = 3 := by
  intro t u
  obtain ⟨hinj, hlines⟩ := outline_injective_and_lines
  obtain ⟨ht, hbreak, hlength⟩ := hlines t
  refine ⟨ht.trans (by decide), (hlines u).1.trans (by decide), fun h => ?_, hbreak _ (by decide), hlength.symm⟩
  exact absurd (hinj h) (by decide)

end Tree
end BracketTree
