import BracketTree.Grouping
import Mathlib.Data.List.Chain
import Mathlib.Tactic.SplitIfs

/-! What is true of the numbered groups after each piece. The groups that have not ended are put into one another, the
text as a whole outermost, and each is the last thing in the group around it. Every other group is held by just one
slot, in a group with a smaller number, and knows the pair of the rules it began with. Putting in a leaf, beginning a
group and ending one each keep this. -/

namespace BracketTree.Grouping

namespace State

/-- The slots of a group, the last one first; there are none where there is no group of that number. -/
def slotsOf (s : State) (n : Nat) : List Slot := (s.drafts[n]?.map (·.slots)).getD []

def openingOf? (s : State) (n : Nat) : Option Opening := s.drafts[n]?.bind (·.opening)

/-- Just one slot of all groups holds group `n`, and this is a slot of group `m`. -/
def HeldOnceBy (s : State) (m n : Nat) : Prop :=
  ∀ k, (s.slotsOf k).count (.group n) = if k = m then 1 else 0

/-- What is true of the numbered groups after each piece. -/
structure Sound (g : Grouping) (s : State) : Prop where
  /-- The text as a whole is the outermost open group. -/
  getLast?_openGroups : s.openGroups.getLast? = some 0
  /-- Further in, the numbers are greater. -/
  pairwise_openGroups : s.openGroups.Pairwise (· > ·)
  lt_size_of_mem : ∀ n ∈ s.openGroups, n < s.drafts.size
  /-- An open group is the last thing in the open group around it. -/
  isChain_openGroups : s.openGroups.IsChain fun n m => (s.slotsOf m).head? = some (.group n)
  heldOnceBy : ∀ n, 0 < n → n < s.drafts.size → ∃ m < n, s.HeldOnceBy m n
  /-- Slots hold no group that has not begun, and none holds the text as a whole. -/
  lt_size_of_slot : ∀ m n, .group n ∈ s.slotsOf m → 0 < n ∧ n < s.drafts.size
  opening : ∀ n, 0 < n → n < s.drafts.size →
    ∃ o, s.openingOf? n = some o ∧ g.bounds.find? o.token = some o.closer

section
variable {s : State}

theorem slotsOf_of_draft {d : Draft} {n : Nat} (h : s.drafts[n]? = some d) : s.slotsOf n = d.slots := by
  rw [slotsOf, h]
  rfl

theorem size_put (slot : Slot) : (s.put slot).drafts.size = s.drafts.size := Array.size_modify

theorem slotsOf_put (h : s.current < s.drafts.size) (slot : Slot) (n : Nat) :
    (s.put slot).slotsOf n = if n = s.current then slot :: s.slotsOf n else s.slotsOf n := by
  unfold slotsOf put
  rw [Array.getElem?_modify]
  split_ifs with h1 h2 h2
  · rw [h2, Array.getElem?_eq_getElem h]
    rfl
  · exact absurd h1.symm h2
  · exact absurd h2.symm h1
  · rfl

theorem openingOf?_put (slot : Slot) (n : Nat) : (s.put slot).openingOf? n = s.openingOf? n := by
  unfold openingOf? put
  rw [Array.getElem?_modify]
  split_ifs
  · cases s.drafts[n]? <;> rfl
  · rfl

theorem size_enter (o : Opening) : (s.enter o).drafts.size = s.drafts.size + 1 := by
  rw [enter, Array.size_push, size_put]

theorem openGroups_enter (o : Opening) : (s.enter o).openGroups = s.drafts.size :: s.openGroups := rfl

theorem slotsOf_enter (h : s.current < s.drafts.size) (o : Opening) (n : Nat) :
    (s.enter o).slotsOf n = if n = s.current then .group s.drafts.size :: s.slotsOf n else s.slotsOf n := by
  rw [← slotsOf_put h]
  unfold slotsOf enter
  rw [Array.getElem?_push]
  split_ifs with hn
  · -- the new group has no slots yet, and had none before
    rw [hn, Array.getElem?_eq_none (Nat.le_refl _)]
    rfl
  · rfl

theorem openingOf?_enter (o : Opening) (n : Nat) :
    (s.enter o).openingOf? n = if n = s.drafts.size then some o else s.openingOf? n := by
  rw [← @openingOf?_put s (.group s.drafts.size)]
  unfold openingOf? enter
  rw [Array.getElem?_push, size_put]
  split_ifs <;> rfl

theorem HeldOnceBy.eq_of_slot {m n k : Nat} (h : s.HeldOnceBy m n) (hk : .group n ∈ s.slotsOf k) : k = m := by
  have hpos := List.count_pos_iff.2 hk
  by_contra hne
  rw [h k, if_neg hne] at hpos
  exact Nat.lt_irrefl _ hpos

end

namespace Sound
variable {g : Grouping} {s : State}

theorem init (g : Grouping) : State.Sound g {} where
  getLast?_openGroups := rfl
  pairwise_openGroups := List.pairwise_singleton _ _
  lt_size_of_mem := by simp
  isChain_openGroups := .singleton 0
  heldOnceBy n h0 h1 := absurd h1 (Nat.not_lt.2 h0)
  lt_size_of_slot m n h := by
    rcases m with _ | m
    · exact absurd h List.not_mem_nil
    · exact absurd h List.not_mem_nil
  opening n h0 h1 := absurd h1 (Nat.not_lt.2 h0)

theorem openGroups_eq (h : s.Sound g) : s.openGroups = s.current :: s.openGroups.tail := by
  have hlast := h.getLast?_openGroups
  rcases hs : s.openGroups with _ | ⟨n, ns⟩
  · rw [hs] at hlast
    cases hlast
  · simp [current, hs]

theorem current_lt_size (h : s.Sound g) : s.current < s.drafts.size := by
  apply h.lt_size_of_mem
  rw [h.openGroups_eq]
  exact List.mem_cons_self

theorem ne_current (h : s.Sound g) {n : Nat} (hn : n ∈ s.openGroups.tail) : n ≠ s.current := by
  have hp := h.pairwise_openGroups
  rw [h.openGroups_eq] at hp
  exact Nat.ne_of_lt ((List.pairwise_cons.1 hp).1 n hn)

/-- What is put into the innermost group leaves the groups around it as they are. -/
theorem isChain_of_slotsOf (h : s.Sound g) {s' : State} (he : ∀ n ≠ s.current, s'.slotsOf n = s.slotsOf n) :
    s.openGroups.IsChain fun n m => (s'.slotsOf m).head? = some (.group n) := by
  apply List.IsChain.imp_of_mem_tail_imp _ h.isChain_openGroups
  intro n m _ hm hnm
  rw [he m (h.ne_current hm)]
  exact hnm

theorem count_group_size (h : s.Sound g) (n : Nat) : (s.slotsOf n).count (.group s.drafts.size) = 0 :=
  List.count_eq_zero.2 fun hm => Nat.lt_irrefl _ (h.lt_size_of_slot _ _ hm).2

theorem put_leaf (h : s.Sound g) (t : String) : (s.put (.leaf t)).Sound g := by
  have hslots := slotsOf_put h.current_lt_size (.leaf t)
  constructor
  case getLast?_openGroups => exact h.getLast?_openGroups
  case pairwise_openGroups => exact h.pairwise_openGroups
  case lt_size_of_mem =>
    intro n hn
    rw [size_put]
    exact h.lt_size_of_mem n hn
  case isChain_openGroups =>
    apply h.isChain_of_slotsOf
    intro n hn
    rw [hslots, if_neg hn]
  case heldOnceBy =>
    intro n h0 hn
    rw [size_put] at hn
    obtain ⟨m, hm, hheld⟩ := h.heldOnceBy n h0 hn
    refine ⟨m, hm, fun k => ?_⟩
    rw [← hheld k, hslots]
    split_ifs
    · exact List.count_cons_of_ne (by simp)
    · rfl
  case lt_size_of_slot =>
    intro m n hn
    rw [hslots] at hn
    rw [size_put]
    split_ifs at hn
    · exact h.lt_size_of_slot m n (by simpa using hn)
    · exact h.lt_size_of_slot m n hn
  case opening => simpa only [size_put, openingOf?_put] using h.opening

theorem enter (h : s.Sound g) {o : Opening} (ho : g.bounds.find? o.token = some o.closer) :
    (s.enter o).Sound g := by
  have hslots := slotsOf_enter h.current_lt_size o
  have hcur := h.current_lt_size
  constructor
  case getLast?_openGroups =>
    rw [openGroups_enter, h.openGroups_eq, List.getLast?_cons_cons, ← h.openGroups_eq]
    exact h.getLast?_openGroups
  case pairwise_openGroups => exact List.pairwise_cons.2 ⟨h.lt_size_of_mem, h.pairwise_openGroups⟩
  case lt_size_of_mem =>
    intro n hn
    rw [size_enter]
    rcases List.mem_cons.1 hn with rfl | hn
    · exact Nat.lt_succ_self _
    · exact Nat.lt_succ_of_lt (h.lt_size_of_mem n hn)
  case isChain_openGroups =>
    have hchain : s.openGroups.IsChain fun n m => ((s.enter o).slotsOf m).head? = some (.group n) := by
      apply h.isChain_of_slotsOf
      intro n hn
      rw [hslots, if_neg hn]
    rw [h.openGroups_eq] at hchain
    rw [openGroups_enter, h.openGroups_eq]
    refine List.isChain_cons_cons.2 ⟨?_, hchain⟩
    rw [hslots, if_pos rfl]
    rfl
  case heldOnceBy =>
    intro n h0 hn
    rw [size_enter] at hn
    rcases Nat.lt_succ_iff_lt_or_eq.1 hn with hn | rfl
    · obtain ⟨m, hm, hheld⟩ := h.heldOnceBy n h0 hn
      refine ⟨m, hm, fun k => ?_⟩
      rw [← hheld k, hslots]
      split_ifs
      · exact List.count_cons_of_ne (by simpa using Nat.ne_of_gt hn)
      · rfl
    · -- the new group is held by the slot just made for it and by no other
      refine ⟨s.current, hcur, fun k => ?_⟩
      rw [hslots]
      split_ifs
      · rw [List.count_cons_self, h.count_group_size]
      · exact h.count_group_size k
  case lt_size_of_slot =>
    intro m n hn
    rw [size_enter]
    have hold : .group n ∈ s.slotsOf m → 0 < n ∧ n < s.drafts.size + 1 := by
      intro hm
      obtain ⟨h0, hlt⟩ := h.lt_size_of_slot m n hm
      exact ⟨h0, Nat.lt_succ_of_lt hlt⟩
    rw [hslots] at hn
    split_ifs at hn
    · rcases List.mem_cons.1 hn with heq | hn
      · rw [Slot.group.inj heq]
        exact ⟨Nat.zero_lt_of_lt hcur, Nat.lt_succ_self _⟩
      · exact hold hn
    · exact hold hn
  case opening =>
    intro n h0 hn
    rw [openingOf?_enter]
    rw [size_enter] at hn
    split_ifs with heq
    · exact ⟨o, rfl, ho⟩
    · exact h.opening n h0 (Nat.lt_of_le_of_ne (Nat.le_of_lt_succ hn) heq)

theorem leave (h : s.Sound g) (hn : s.isNested = true) : s.leave.Sound g := by
  have htail : s.openGroups.tail ≠ [] := by
    rintro he
    simp [isNested, he] at hn
  have hlast := h.getLast?_openGroups
  rw [h.openGroups_eq] at hlast
  constructor
  case getLast?_openGroups =>
    obtain ⟨n, ns, heq⟩ := List.exists_cons_of_ne_nil htail
    rw [heq, List.getLast?_cons_cons, ← heq] at hlast
    exact hlast
  case pairwise_openGroups => exact h.pairwise_openGroups.tail
  case lt_size_of_mem => exact fun n hm => h.lt_size_of_mem n (List.mem_of_mem_tail hm)
  case isChain_openGroups => exact h.isChain_openGroups.tail
  case heldOnceBy => exact h.heldOnceBy
  case lt_size_of_slot => exact h.lt_size_of_slot
  case opening => exact h.opening

theorem openStep (h : s.Sound g) (p : Piece) : (g.openStep s p).Sound g := by
  unfold Grouping.openStep
  cases hf : g.bounds.find? p.text with
  | none => exact h
  | some closer => exact h.enter hf

theorem leafStep (h : s.Sound g) (p : Piece) : (g.leafStep s p).Sound g := by
  unfold Grouping.leafStep
  split_ifs
  · exact h
  · exact h.put_leaf _

theorem closeStep (h : s.Sound g) (p : Piece) : (Grouping.closeStep s p).Sound g := by
  unfold Grouping.closeStep awaits
  split_ifs with ha
  · exact h.leave (Bool.and_eq_true_iff.1 ha).1
  · exact h

theorem step (h : s.Sound g) (p : Piece) : (g.step s p).Sound g := by
  unfold Grouping.step
  split_ifs
  · exact h
  · exact ((h.openStep p).leafStep p).closeStep p

theorem foldl_step (h : s.Sound g) (ps : List Piece) : (ps.foldl g.step s).Sound g := by
  induction ps generalizing s with
  | nil => exact h
  | cons p ps ih => exact ih (h.step p)

theorem current_pos (h : s.Sound g) (hn : s.isNested = true) : 0 < s.current := by
  have hlast := (h.leave hn).getLast?_openGroups
  have hp := h.pairwise_openGroups
  rw [h.openGroups_eq] at hp
  exact (List.pairwise_cons.1 hp).1 0 (List.mem_of_getLast? hlast)

/-- A slot that holds a group is the one slot that does, and the group has the greater number. -/
theorem heldOnceBy_of_slot (h : s.Sound g) {m n : Nat} (hn : .group n ∈ s.slotsOf m) :
    m < n ∧ s.HeldOnceBy m n := by
  obtain ⟨h0, hlt⟩ := h.lt_size_of_slot m n hn
  obtain ⟨k, hk, hheld⟩ := h.heldOnceBy n h0 hlt
  obtain rfl := hheld.eq_of_slot hn
  exact ⟨hk, hheld⟩

theorem count_slot_le (h : s.Sound g) (m n : Nat) : (s.slotsOf m).count (.group n) ≤ 1 := by
  by_cases hn : .group n ∈ s.slotsOf m
  · rw [(h.heldOnceBy_of_slot hn).2 m, if_pos rfl]
  · rw [List.count_eq_zero.2 hn]
    exact Nat.zero_le 1

end Sound
end State
end BracketTree.Grouping
