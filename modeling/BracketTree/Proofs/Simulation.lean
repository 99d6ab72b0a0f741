import BracketTree.Proofs.Arena

/-! Taking in pieces with numbered groups is taking them in at a cursor: a state that shows a cursor shows the
cursor's next place after the next piece, refuses the same pieces, and has the same tree. What is proved of
cursors therefore holds of grouping. -/

namespace BracketTree.Grouping

/-- A state shows a cursor: both are the same groups, ended or not. -/
def State.Shows (s : State) (c : Cursor) : Prop := Chain s.drafts [] s.drafts.size s.openGroups c

namespace State.Shows
variable {s : State} {c : Cursor}

theorem init : State.Shows {} {} :=
  .root (show (#[{}] : Array Draft)[0]? = some ⟨none, [] ++ []⟩ from rfl) (.nil 1)

theorem tree_eq (h : s.Shows c) : s.tree = c.tree := by
  obtain ⟨d, ns, hd, hb, ht⟩ := Chain.whole h
  have ha := assembled_assembleFrom s.drafts.size (Nat.le_refl _) assembled_replicate
  rw [State.tree, ha.nodes 0 d _ ns (Nat.zero_le _) hd hb, ht]
  rfl

theorem isNested_eq (h : s.Shows c) : s.isNested = !c.around.isEmpty := by
  obtain ⟨drafts, gs⟩ := s
  cases h with
  | root _ _ => rfl
  | inner _ _ hc => simp [State.isNested, hc.openGroups_ne_nil]

theorem opening?_eq (h : s.Shows c) : s.opening? = c.around.head?.map (·.1) := by
  obtain ⟨drafts, gs⟩ := s
  cases h with
  | root hd _ => simp [State.opening?, State.current, hd]
  | inner hd _ _ => simp [State.opening?, State.current, hd]

theorem depth_eq (h : s.Shows c) : s.depth = c.around.length := by
  rw [State.depth, h.length_openGroups]; rfl

theorem awaits_eq (h : s.Shows c) (t : String) : s.awaits t = c.awaits t := by
  rw [State.awaits, h.isNested_eq, h.opening?_eq, Cursor.awaits]
  cases c.around with
  | nil => rfl
  | cons l around => rfl

theorem put_leaf (h : s.Shows c) (t : String) : (s.put (.leaf t)).Shows (c.put (.leaf t)) := by
  obtain ⟨drafts, gs⟩ := s
  obtain ⟨n, gs, rfl⟩ := List.exists_cons_of_ne_nil h.openGroups_ne_nil
  have hp := (Chain.push_slot h (.leaf t)).show_leaf
  rwa [← Array.size_modify] at hp

theorem enter (h : s.Shows c) (o : Opening) : (s.enter o).Shows (c.enter o) := by
  obtain ⟨drafts, gs⟩ := s
  obtain ⟨n, gs, rfl⟩ := List.exists_cons_of_ne_nil h.openGroups_ne_nil
  exact (Chain.push_slot h (.group drafts.size)).begin Array.size_modify.symm o

theorem leave (h : s.Shows c) (ha : c.around ≠ []) : s.leave.Shows c.leave := by
  obtain ⟨drafts, gs⟩ := s
  obtain ⟨n, gs, rfl⟩ := List.exists_cons_of_ne_nil h.openGroups_ne_nil
  exact Chain.leave h ha

theorem step (h : s.Shows c) (g : Grouping) (p : Piece) : (g.step s p).Shows (c.step g p) := by
  have hopen : (g.openStep s p).Shows (c.openAt g p) := by
    unfold openStep Cursor.openAt
    cases g.bounds.find? p.text with
    | none => exact h
    | some closer => exact h.enter _
  have hleaf : (g.leafStep (g.openStep s p) p).Shows ((c.openAt g p).leafAt g p) := by
    unfold leafStep Cursor.leafAt
    split_ifs
    · exact hopen
    · exact hopen.put_leaf _
  unfold Grouping.step Cursor.step
  split_ifs with he
  · exact h
  · unfold closeStep Cursor.closeAt
    rw [hleaf.awaits_eq]
    split_ifs with ha
    · refine hleaf.leave fun hnil => ?_
      simp [Cursor.awaits, hnil] at ha
    · exact hleaf

theorem foldl_step (h : s.Shows c) (g : Grouping) (ps : List Piece) :
    (ps.foldl g.step s).Shows (ps.foldl (Cursor.step g) c) := by
  induction ps generalizing s c with
  | nil => exact h
  | cons p ps ih => exact ih (h.step g p)

theorem strays_eq (h : s.Shows c) (g : Grouping) (p : Piece) : g.strays s p = c.strays g p := by
  rw [strays, Cursor.strays, h.awaits_eq]

theorem close_eq (h : s.Shows c) : s.close = c.close := by
  rw [State.close, h.isNested_eq, h.opening?_eq, h.depth_eq, h.tree_eq, Cursor.close]
  cases c.around with
  | nil => rfl
  | cons l around => rfl

theorem foldlM_strictStep (h : s.Shows c) (g : Grouping) (ps : List Piece) :
    (ps.foldlM g.strictStep s >>= State.close) = (ps.foldlM (Cursor.strictStep g) c >>= Cursor.close) := by
  induction ps generalizing s c with
  | nil => exact h.close_eq
  | cons p ps ih =>
    simp only [List.foldlM_cons, strictStep, Cursor.strictStep, h.strays_eq]
    cases c.strays g p with
    | true => rfl
    | false => exact ih (h.step g p)

end State.Shows

theorem group_eq (g : Grouping) (ps : List Piece) : g.group ps = (ps.foldl (Cursor.step g) {}).tree :=
  (State.Shows.init.foldl_step g ps).tree_eq

theorem groupStrict_eq (g : Grouping) (ps : List Piece) :
    g.groupStrict ps = ps.foldlM (Cursor.strictStep g) {} >>= Cursor.close :=
  State.Shows.init.foldlM_strictStep g ps

/-- A fold that may stop goes, where it goes on to the end, where the fold goes that never stops. -/
theorem foldl_eq_of_foldlM_ok {α ε : Type} {f : α → Piece → α} {stops : α → Piece → Except ε α}
    (hstep : ∀ a p b, stops a p = .ok b → f a p = b) {a b : α} {ps : List Piece} (h : ps.foldlM stops a = .ok b) :
    ps.foldl f a = b := by
  induction ps generalizing a with
  | nil => exact Except.ok.inj h
  | cons p ps ih =>
    rw [List.foldlM_cons] at h
    cases hs : stops a p with
    | error e =>
      rw [hs] at h
      cases h
    | ok a' =>
      rw [hs] at h
      rw [List.foldl_cons, hstep a p a' hs]
      exact ih h

theorem step_eq_of_strictStep {g : Grouping} {s s' : State} {p : Piece} (h : g.strictStep s p = .ok s') :
    g.step s p = s' := by
  unfold strictStep at h
  split_ifs at h
  exact Except.ok.inj h

/-- Where strict grouping goes on, it goes where lenient grouping goes. -/
theorem Cursor.foldl_eq_of_foldlM (g : Grouping) {c c' : Cursor} {ps : List Piece}
    (h : ps.foldlM (strictStep g) c = .ok c') : ps.foldl (step g) c = c' := by
  refine foldl_eq_of_foldlM_ok (fun a p b hb => ?_) h
  unfold strictStep at hb
  split_ifs at hb
  exact Except.ok.inj hb

theorem tree_eq_of_groupStrict {g : Grouping} {ps : List Piece} {t : Tree} (h : g.groupStrict ps = .ok t) :
    g.group ps = t := by
  rw [groupStrict_eq] at h
  cases hc : ps.foldlM (Cursor.strictStep g) {} with
  | error e => rw [hc] at h; cases h
  | ok c =>
    rw [hc] at h
    obtain ⟨here, _ | ⟨l, around⟩⟩ := c
    · rw [group_eq, Cursor.foldl_eq_of_foldlM g hc]
      exact Except.ok.inj h
    · cases h

end BracketTree.Grouping
