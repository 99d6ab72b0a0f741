import BracketTree.Proofs.WellFormed

/-! Every well-formed tree is made by grouping: pieces with the leaves of a node as their texts put this node where
the cursor is, so grouping the leaves of a tree gives the tree back. -/

namespace BracketTree.Grouping

/-- Puts nodes at the cursor, one after the other. -/
def Cursor.puts (c : Cursor) (xs : List Node) : Cursor := ⟨xs.reverse ++ c.here, c.around⟩

/-- Pieces with the leaves of a node as their texts put this node at any cursor where its text, if it is a leaf, is
a plain token; a node that lacks its end is there in the tree, but the cursor stays inside it. -/
def Regroups (g : Grouping) (x : Node) : Prop :=
  ∀ (c : Cursor) (ps : List Piece), ps.map (·.text) = x.leaves →
    (∀ s, x = .leaf s → g.bounds.contains s = false ∧ c.awaits s = false) →
    (HasEnded g.bounds x → ps.foldl (Cursor.step g) c = c.put x) ∧
      (ps.foldl (Cursor.step g) c).tree = (c.put x).tree

section
variable {g : Grouping}

theorem foldl_row {xs : List Node} (hr : ∀ x ∈ xs, Regroups g x) (he : ∀ x ∈ xs, HasEnded g.bounds x)
    {c : Cursor} {ps : List Piece} (hps : ps.map (·.text) = Node.leavesList xs)
    (hl : ∀ s, .leaf s ∈ xs → g.bounds.contains s = false ∧ c.awaits s = false) :
    ps.foldl (Cursor.step g) c = c.puts xs := by
  induction xs generalizing c ps with
  | nil =>
    obtain rfl := List.map_eq_nil_iff.1 hps
    rfl
  | cons x xs ih =>
    obtain ⟨qs, rs, rfl, hqs, hrs⟩ := List.map_eq_append_iff.1 hps
    have hx := (hr x List.mem_cons_self c qs hqs fun s hm => hl s (hm ▸ List.mem_cons_self)).1
      (he x List.mem_cons_self)
    rw [List.foldl_append, hx, ih (c := c.put x) (fun y hy => hr y (List.mem_cons_of_mem x hy))
      (fun y hy => he y (List.mem_cons_of_mem x hy)) hrs fun s hm => hl s (List.mem_cons_of_mem x hm)]
    simp [Cursor.puts, Cursor.put]

theorem tree_foldl_row {xs : List Node} (hr : ∀ x ∈ xs, Regroups g x)
    (he : ∀ x ∈ xs.dropLast, HasEnded g.bounds x) {c : Cursor} {ps : List Piece}
    (hps : ps.map (·.text) = Node.leavesList xs)
    (hl : ∀ s, .leaf s ∈ xs → g.bounds.contains s = false ∧ c.awaits s = false) :
    (ps.foldl (Cursor.step g) c).tree = (c.puts xs).tree := by
  rcases List.eq_nil_or_concat xs with rfl | ⟨ys, y, rfl⟩
  · rw [foldl_row hr (fun x hx => absurd hx List.not_mem_nil) hps hl]
  · rw [List.concat_eq_append] at *
    rw [Node.leavesList_append] at hps
    obtain ⟨qs, rs, rfl, hqs, hrs⟩ := List.map_eq_append_iff.1 hps
    rw [List.dropLast_concat] at he
    rw [List.foldl_append, foldl_row (fun x hx => hr x (List.mem_append_left _ hx)) he hqs
      fun s hm => hl s (List.mem_append_left _ hm)]
    have hy := (hr y (by simp) (c.puts ys) rs (by simpa [Node.leavesList] using hrs)
      fun s hm => hl s (by simp [hm])).2
    rw [hy]
    simp [Cursor.puts, Cursor.put]

theorem foldl_ended {xs : List Node} (hr : ∀ x ∈ xs, Regroups g x) (he : ∀ x ∈ xs, HasEnded g.bounds x)
    {here before : List Node} {around : List (Opening × List Node)} {o : Opening} {ps : List Piece} {q : Piece}
    (hps : ps.map (·.text) = Node.leavesList xs)
    (hl : ∀ s, .leaf s ∈ xs → g.bounds.contains s = false ∧ o.closer ≠ s)
    (hq : FormedNode g (.leaf q.text)) (hn : g.bounds.contains q.text = false) (ho : o.closer = q.text) :
    (ps ++ [q]).foldl (Cursor.step g) ⟨here, (o, before) :: around⟩ =
      ⟨.group (here.reverse ++ (xs ++ [.leaf q.text])) :: before, around⟩ := by
  have hrow := foldl_row hr he (c := ⟨here, (o, before) :: around⟩) hps fun s hm =>
    ⟨(hl s hm).1, by simpa [Cursor.awaits] using (hl s hm).2⟩
  have hf := (StringMap.contains_eq_false_iff _ _).1 hn
  rw [List.foldl_append, hrow, List.foldl_cons,
    Cursor.step_close _ hq.1 hf (by simpa [Cursor.puts, Cursor.awaits] using ho), kept_of_not_mem hq.2]
  simp [Cursor.puts, Cursor.leave]

theorem regroups_leaf {s : String} (hx : FormedNode g (.leaf s)) : Regroups g (.leaf s) := by
  intro c ps hps hl
  obtain ⟨p, _, rfl, rfl, hnil⟩ := List.map_eq_cons_iff.1 hps
  obtain rfl := List.map_eq_nil_iff.1 hnil
  obtain ⟨hk, ha⟩ := hl p.text rfl
  have hp : c.step g p = c.put (.leaf p.text) := by
    rw [c.step_plain hx.1 ((StringMap.contains_eq_false_iff _ _).1 hk) ha, kept_of_not_mem hx.2]
    rfl
  exact ⟨fun _ => hp, congrArg Cursor.tree hp⟩

theorem regroups_group {xs : List Node} (hx : FormedNode g (.group xs)) (hr : ∀ x ∈ xs, Regroups g x) :
    Regroups g (.group xs) := by
  intro c ps hps _
  obtain ⟨⟨o, closer, rest, rfl, hshape⟩, hformed⟩ := hx
  obtain ⟨hform, hend⟩ := formedRow_iff.1 hformed
  change ps.map (·.text) = o :: Node.leavesList rest at hps
  obtain ⟨p, qs, rfl, rfl, hqs⟩ := List.map_eq_cons_iff.1 hps
  obtain ⟨hp, hk⟩ := hform _ List.mem_cons_self
  have hrr : ∀ x ∈ rest, Regroups g x := fun x hx => hr x (List.mem_cons_of_mem _ hx)
  by_cases hne : closer = p.text
  · -- the token closes its own group, so the group is this token alone
    obtain rfl := hshape.alone hne
    obtain rfl := List.map_eq_nil_iff.1 hqs
    have hstep : c.step g p = c.put (.group [.leaf p.text]) := by
      rw [c.step_self hp (hne ▸ hshape.opens), kept_of_not_mem hk]
    exact ⟨fun _ => hstep, congrArg Cursor.tree hstep⟩
  have hopen := c.step_open hp hshape.opens hne
  rw [kept_of_not_mem hk] at hopen
  rw [List.foldl_cons, hopen]
  rcases hshape.ended_or hne with ⟨row, rfl, hnot⟩ | ⟨hrest, hlack⟩
  · -- the last piece is the closing token, and it leaves the group
    rw [Node.leavesList_append] at hqs
    obtain ⟨qs, rs, rfl, hrow, hrs⟩ := List.map_eq_append_iff.1 hqs
    obtain ⟨q, _, rfl, rfl, hnil⟩ := List.map_eq_cons_iff.1 hrs
    obtain rfl := List.map_eq_nil_iff.1 hnil
    have hqm : .leaf q.text ∈ row ++ [.leaf q.text] := List.mem_append_right _ (List.mem_singleton_self _)
    have hrun : (qs ++ [q]).foldl (Cursor.step g)
        ⟨[.leaf p.text], (⟨p.text, p.offset, q.text⟩, c.here) :: c.around⟩ =
          c.put (.group (.leaf p.text :: (row ++ [.leaf q.text]))) := by
      refine foldl_ended (fun x hx => hrr x (List.mem_append_left _ hx)) (fun x hx => hend x ?_) hrow
        (fun s hm => ⟨hshape.not_key s (List.mem_append_left _ hm), fun hs : q.text = s => hnot (hs ▸ hm)⟩)
        (hform _ (List.mem_cons_of_mem _ hqm)) (hshape.not_key _ hqm) rfl
      rw [← List.cons_append, List.dropLast_concat]
      exact List.mem_cons_of_mem _ hx
    exact ⟨fun _ => hrun, congrArg Cursor.tree hrun⟩
  · refine ⟨fun hended => absurd hended hlack, ?_⟩
    rw [tree_foldl_row hrr ?_ hqs ?_]
    · simp [Cursor.puts, Cursor.tree, Cursor.wrap, Cursor.put]
    · intro x hx
      exact hend x (by
        cases rest with
        | nil => exact absurd hx List.not_mem_nil
        | cons y ys => exact List.mem_cons_of_mem _ hx)
    · intro s hm
      refine ⟨hshape.not_key s hm, ?_⟩
      have hs : closer ≠ s := fun hs => hrest (hs ▸ hm)
      simpa [Cursor.awaits] using hs

theorem regroups {x : Node} (hx : FormedNode g x) : Regroups g x := by
  induction x using Node.induct with
  | leaf s => exact regroups_leaf hx
  | group xs ih => exact regroups_group hx fun x hm => ih x hm ((formedRow_iff.1 hx.2).1 x hm)

theorem group_of_wellFormed {t : Tree} (ht : WellFormed g t) {ps : List Piece}
    (hps : ps.map (·.text) = Node.leavesList t) : g.group ps = t := by
  obtain ⟨hkey, hrow⟩ := ht
  obtain ⟨hform, hend⟩ := formedRow_iff.1 hrow
  rw [group_eq, tree_foldl_row (fun x hx => regroups (hform x hx)) hend hps fun s hm => ⟨hkey s hm, rfl⟩]
  simp [Cursor.puts, Cursor.tree]

end

/-- Grouping and flattening are inverse to each other on the well-formed trees, and grouping makes no others. -/
theorem wellFormed_group_and_group_flatten (g : Grouping)
    (hs : ∀ t ∈ g.strip, g.bounds.contains t = false ∧ t ∉ g.bounds.values) :
    (∀ ps, WellFormed g (g.group ps)) ∧
      ∀ t, WellFormed g t → ∀ ps : List Piece, ps.map (·.text) = Tree.flatten t → g.group ps = t :=
  ⟨wellFormed_group hs, fun _ ht _ hps => group_of_wellFormed ht (hps.trans (Tree.flatten_eq _))⟩

theorem wellFormed_group_and_group_flatten_unended :
    let g : Grouping := ⟨.ofList [("(", ")"), ("|", "|")], [" "]⟩
    let ps : List Piece := [⟨true, ")", 0⟩, ⟨true, "(", 1⟩, ⟨true, " ", 2⟩, ⟨true, "|", 3⟩, ⟨true, "(", 4⟩,
      ⟨false, "a", 5⟩, ⟨true, ")", 6⟩, ⟨true, "(", 7⟩]
    let t : Tree := [.leaf ")", .group [.leaf "(", .group [.leaf "|"],
      .group [.leaf "(", .leaf "a", .leaf ")"], .group [.leaf "("]]]
    (∀ s ∈ g.strip, g.bounds.contains s = false ∧ s ∉ g.bounds.values) ∧ g.group ps = t ∧
      WellFormed g t ∧ g.group ((Tree.flatten t).map (⟨true, ·, 0⟩)) = t := by
  intro g ps t
  have hs : ∀ s ∈ g.strip, g.bounds.contains s = false ∧ s ∉ g.bounds.values := by decide
  have ht : g.group ps = t := by decide
  obtain ⟨hg, hf⟩ := wellFormed_group_and_group_flatten g hs
  have hw : WellFormed g t := ht ▸ hg ps
  refine ⟨hs, ht, hw, hf t hw _ ?_⟩
  rw [List.map_map]
  exact List.map_id _

end BracketTree.Grouping
