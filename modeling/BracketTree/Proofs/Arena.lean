import BracketTree.Proofs.Cursor

/-! The numbered groups of a state and a cursor are two forms of one thing. Groups are numbered in the order in
which they begin, so the groups inside a group have the numbers that follow its own, each of them is held by one
slot, and a group that has not ended is the last thing put into the group around it. When the groups are assembled
from the last number to the first, every group therefore finds the groups inside it complete. -/

namespace BracketTree.Grouping

/-- Slots stand for nodes, both the last one first, and the groups the slots hold, at any depth, are those with
the numbers from `lo` up to, not including, `hi`. -/
inductive Built (drafts : Array Draft) : Nat → Nat → List Slot → List Node → Prop
  | nil (n : Nat) : Built drafts n n [] []
  | leaf {lo hi : Nat} {slots : List Slot} {ns : List Node} (s : String) :
      Built drafts lo hi slots ns → Built drafts lo hi (.leaf s :: slots) (.leaf s :: ns)
  | group {lo n hi : Nat} {slots : List Slot} {ns inner : List Node} {d : Draft} :
      Built drafts lo n slots ns → drafts[n]? = some d → Built drafts (n + 1) hi d.slots inner →
      Built drafts lo hi (.group n :: slots) (.group inner.reverse :: ns)

/-- The open groups `gs` are those around the cursor and hold what stands in front of it; the innermost one has
`tip` on top of that, which the cursor does not show. Numbers below `hi` are taken. -/
inductive Chain (drafts : Array Draft) : List Slot → Nat → List Nat → Cursor → Prop
  | root {tip slots : List Slot} {hi : Nat} {here : List Node} :
      drafts[0]? = some ⟨none, tip ++ slots⟩ → Built drafts 1 hi slots here →
      Chain drafts tip hi [0] ⟨here, []⟩
  | inner {tip slots : List Slot} {hi n : Nat} {gs : List Nat} {o : Opening} {here before : List Node}
      {around : List (Opening × List Node)} :
      drafts[n]? = some ⟨some o, tip ++ slots⟩ → Built drafts (n + 1) hi slots here →
      Chain drafts [.group n] n gs ⟨before, around⟩ →
      Chain drafts tip hi (n :: gs) ⟨here, (o, before) :: around⟩

section
variable {drafts drafts' : Array Draft} {lo hi n : Nat} {slots tip : List Slot} {ns : List Node}
  {gs : List Nat} {c : Cursor}

theorem Built.le (h : Built drafts lo hi slots ns) : lo ≤ hi := by
  induction h with
  | nil n => exact Nat.le_refl n
  | leaf s _ ih => exact ih
  | group _ _ _ ih ihd => omega

/-- Only the drafts of the groups inside matter. -/
theorem Built.congr (h : Built drafts lo hi slots ns)
    (he : ∀ i, lo ≤ i → i < hi → drafts'[i]? = drafts[i]?) : Built drafts' lo hi slots ns := by
  induction h with
  | nil n => exact .nil n
  | leaf s _ ih => exact .leaf s (ih he)
  | group hs hd hin ih ihd =>
    have hlo := hs.le
    have hhi := hin.le
    refine .group (ih fun i h1 h2 => he i h1 (by omega)) ?_ (ihd fun i h1 h2 => he i (by omega) h2)
    rw [he _ hlo (by omega), hd]

theorem Chain.congr (h : Chain drafts tip hi gs c) (he : ∀ i, i < hi → drafts'[i]? = drafts[i]?) :
    Chain drafts' tip hi gs c := by
  induction h with
  | root hd hb =>
    have := hb.le
    exact .root (by rw [he 0 (by omega), hd]) (hb.congr fun i _ h2 => he i h2)
  | inner hd hb _ ih =>
    have := hb.le
    exact .inner (by rw [he _ (by omega), hd]) (hb.congr fun i _ h2 => he i h2)
      (ih fun i h2 => he i (by omega))

theorem Chain.openGroups_ne_nil (h : Chain drafts tip hi gs c) : gs ≠ [] := by
  cases h <;> exact List.cons_ne_nil _ _

theorem Chain.length_openGroups (h : Chain drafts tip hi gs c) : gs.length = c.around.length + 1 := by
  induction h with
  | root _ _ => rfl
  | inner _ _ _ ih => simpa using ih

/-- Puts a slot into the innermost group, behind what the cursor shows. -/
theorem Chain.push_slot (h : Chain drafts tip hi (n :: gs) c) (slot : Slot) :
    Chain (drafts.modify n fun d => { d with slots := slot :: d.slots }) (slot :: tip) hi (n :: gs) c := by
  cases h with
  | root hd hb =>
    refine .root (by rw [Array.getElem?_modify, if_pos rfl, hd]; rfl) (hb.congr fun i h1 _ => ?_)
    rw [Array.getElem?_modify, if_neg (by omega)]
  | inner hd hb hc =>
    refine .inner (by rw [Array.getElem?_modify, if_pos rfl, hd]; rfl) (hb.congr fun i h1 _ => ?_)
      (hc.congr fun i h2 => ?_)
    · rw [Array.getElem?_modify, if_neg (by omega)]
    · rw [Array.getElem?_modify, if_neg (by omega)]

theorem Chain.show_leaf {s : String} (h : Chain drafts [.leaf s] hi gs c) :
    Chain drafts [] hi gs (c.put (.leaf s)) := by
  cases h with
  | root hd hb => exact .root hd (hb.leaf s)
  | inner hd hb hc => exact .inner hd (hb.leaf s) hc

/-- A group behind what the cursor shows comes to be shown once all of it is built. -/
theorem Chain.show_group {d : Draft} {inner : List Node} (h : Chain drafts [.group n] n gs c)
    (hd : drafts[n]? = some d) (hin : Built drafts (n + 1) hi d.slots inner) :
    Chain drafts [] hi gs (c.put (.group inner.reverse)) := by
  cases h with
  | root h0 hb => exact .root h0 (.group hb hd hin)
  | inner h0 hb hc => exact .inner h0 (.group hb hd hin) hc

/-- A group that has just been put into the innermost one takes the next number and becomes the innermost. -/
theorem Chain.begin (h : Chain drafts [.group n] n gs c) (hn : n = drafts.size) (o : Opening) :
    Chain (drafts.push ⟨some o, []⟩) [] (drafts.push ⟨some o, []⟩).size (n :: gs) (c.enter o) := by
  subst hn
  have hd : (drafts.push ⟨some o, []⟩)[drafts.size]? = some ⟨some o, [] ++ []⟩ := Array.getElem?_push_size
  rw [Array.size_push]
  refine .inner hd (.nil _) (h.congr fun i hi => ?_)
  rw [Array.getElem?_push_lt hi, Array.getElem?_eq_getElem hi]

theorem Chain.leave (h : Chain drafts [] hi (n :: gs) c) (ha : c.around ≠ []) :
    Chain drafts [] hi gs c.leave := by
  cases h with
  | root _ _ => exact absurd rfl ha
  | inner hd hb hc => exact hc.show_group hd hb

/-- The group that is the whole text is built from what the cursor's tree shows. -/
theorem Chain.whole (h : Chain drafts [] hi gs c) :
    ∃ d ns, drafts[0]? = some d ∧ Built drafts 1 hi d.slots ns ∧ c.tree = ns.reverse := by
  obtain ⟨here, around⟩ := c
  induction around generalizing here gs with
  | nil =>
    cases h with
    | root hd hb => exact ⟨_, here, hd, hb, rfl⟩
  | cons l around ih =>
    cases h with
    | inner hd hb hc => exact ih _ (hc.show_group hd hb)

end

/-! Assembling from the last number to the first. -/

/-- From number `k` on, `built` holds the nodes of each group. -/
structure Assembled (drafts : Array Draft) (k : Nat) (built : Array (List Node)) : Prop where
  size : built.size = drafts.size
  nodes : ∀ i d hi ns, k ≤ i → drafts[i]? = some d → Built drafts (i + 1) hi d.slots ns →
    built[i]? = some ns.reverse

section
variable {drafts : Array Draft} {built : Array (List Node)}

theorem Built.nodes {lo hi : Nat} {o : Option Opening} {slots : List Slot} {ns : List Node}
    (h : Built drafts lo hi slots ns) (ha : Assembled drafts lo built) :
    Draft.nodes ⟨o, slots⟩ built = ns.reverse := by
  induction h with
  | nil n => rfl
  | leaf s _ ih =>
    have hn := ih ha
    simp only [Draft.nodes] at hn
    simp [Draft.nodes, hn]
  | group hs hd hin ih _ =>
    have hn := ih ha
    have hg := ha.nodes _ _ _ _ hs.le hd hin
    simp only [Draft.nodes] at hn
    simp [Draft.nodes, hn, hg]

theorem Assembled.set {n : Nat} {d : Draft} (ha : Assembled drafts (n + 1) built) (hd : drafts[n]? = some d) :
    Assembled drafts n (built.setIfInBounds n (d.nodes built)) where
  size := by rw [Array.size_setIfInBounds, ha.size]
  nodes i e hi ns hle he hb := by
    rw [Array.getElem?_setIfInBounds]
    split_ifs with hi' hlt
    · -- the group just added: the groups inside it have greater numbers
      subst hi'
      obtain rfl : d = e := Option.some.inj (hd.symm.trans he)
      exact congrArg some (hb.nodes ha)
    · obtain ⟨hlt', -⟩ := Array.getElem?_eq_some_iff.1 hd
      exact absurd (ha.size ▸ hlt') hlt
    · exact ha.nodes i e hi ns (by omega) he hb

theorem assembled_assembleFrom (n : Nat) (hn : n ≤ drafts.size) (ha : Assembled drafts n built) :
    Assembled drafts 0 (assembleFrom drafts n built) := by
  induction n generalizing built with
  | zero => exact ha
  | succ n ih =>
    have hd : drafts[n]? = some (drafts[n]?.getD {}) := by
      rw [Array.getElem?_eq_getElem (by omega)]; rfl
    exact ih (by omega) (ha.set hd)

theorem assembled_replicate : Assembled drafts drafts.size (Array.replicate drafts.size []) where
  size := Array.size_replicate
  nodes i d hi ns hle hd _ := by
    obtain ⟨hlt, -⟩ := Array.getElem?_eq_some_iff.1 hd
    omega

end

end BracketTree.Grouping
