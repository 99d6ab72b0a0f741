import BracketTree.Parser
import BracketTree.Proofs.NumberedGroups
import BracketTree.Proofs.Simulation

/-! Grouping looks things up by number, and for each look-up something is at hand should it fail: another group, an
opening without a text, no nodes at all. Here is grouping that gives up instead, and that takes the nodes of a group
away when they are put into the group around it, so that they are not there a second time. It never gives up, and comes
to the same. So nothing is ever made up, and the tree is what the slots of the text as a whole stand for. -/

namespace BracketTree.Grouping

/-- Slots stand for nodes, in order: a leaf for itself, and a group for what its own slots stand for. -/
inductive Unfolds (drafts : Array Draft) : List Slot → List Node → Prop
  | nil : Unfolds drafts [] []
  | leaf {slots : List Slot} {ns : List Node} (t : String) :
      Unfolds drafts slots ns → Unfolds drafts (.leaf t :: slots) (.leaf t :: ns)
  | group {n : Nat} {d : Draft} {slots : List Slot} {inner ns : List Node} :
      drafts[n]? = some d → Unfolds drafts d.slots.reverse inner → Unfolds drafts slots ns →
      Unfolds drafts (.group n :: slots) (.group inner :: ns)

section
variable {drafts : Array Draft} {slots slots' : List Slot} {ns ns' : List Node}

theorem Unfolds.append (h : Unfolds drafts slots ns) (h' : Unfolds drafts slots' ns') :
    Unfolds drafts (slots ++ slots') (ns ++ ns') := by
  induction h with
  | nil => exact h'
  | leaf t _ ih => exact .leaf t ih
  | group hd hin _ _ ih => exact .group hd hin ih

theorem Unfolds.unique (h : Unfolds drafts slots ns) (h' : Unfolds drafts slots ns') : ns = ns' := by
  induction h generalizing ns' with
  | nil =>
    cases h'
    rfl
  | leaf t _ ih =>
    cases h' with
    | leaf _ hs => rw [ih hs]
  | group hd _ _ ihin ih =>
    cases h' with
    | group hd' hin' hs =>
      rw [hd, Option.some.injEq] at hd'
      subst hd'
      rw [ihin hin', ih hs]

theorem Built.unfolds {lo hi : Nat} (h : Built drafts lo hi slots ns) : Unfolds drafts slots.reverse ns.reverse := by
  induction h with
  | nil _ => exact .nil
  | leaf t _ ih =>
    rw [List.reverse_cons, List.reverse_cons]
    exact ih.append (.leaf t .nil)
  | group _ hd _ ih ihin =>
    rw [List.reverse_cons, List.reverse_cons]
    exact ih.append (.group hd ihin .nil)

end

theorem State.Shows.unfolds_tree {s : State} {c : Cursor} (h : s.Shows c) :
    Unfolds s.drafts (s.slotsOf 0).reverse s.tree := by
  obtain ⟨d, ns, hd, hb, ht⟩ := Chain.whole h
  rw [State.slotsOf_of_draft hd, h.tree_eq, ht]
  exact hb.unfolds

/-! Assembling. -/

/-- The nodes of some slots, in order. The nodes of a group have to be there, and are taken away. -/
def takeNodes? : List Slot → Array (Option (List Node)) → Option (List Node × Array (Option (List Node)))
  | [], built => some ([], built)
  | .leaf t :: slots, built => (takeNodes? slots built).map fun r => (.leaf t :: r.1, r.2)
  | .group n :: slots, built =>
    built[n]?.join.bind fun inner =>
      (takeNodes? slots (built.setIfInBounds n none)).map fun r => (.group inner :: r.1, r.2)

/-- Fills in the nodes of the groups below `n`, from the last to the first. -/
def assembleFrom? (drafts : Array Draft) : Nat → Array (Option (List Node)) → Option (Array (Option (List Node)))
  | 0, built => some built
  | n + 1, built => do
    let d ← drafts[n]?
    let r ← takeNodes? d.slots.reverse built
    assembleFrom? drafts n (r.2.setIfInBounds n (some r.1))

def State.tree? (s : State) : Option Tree :=
  (assembleFrom? s.drafts s.drafts.size (Array.replicate s.drafts.size none)).bind fun built => built[0]?.join

def AtHand (drafts : Array Draft) (built : Array (Option (List Node))) (n : Nat) : Prop :=
  ∃ d ns, drafts[n]? = some d ∧ built[n]? = some (some ns) ∧ Unfolds drafts d.slots.reverse ns

/-- The nodes of different groups are taken, and those of all other groups stay. -/
theorem exists_takeNodes? {drafts : Array Draft} {slots : List Slot} {built : Array (Option (List Node))}
    (hone : ∀ n, slots.count (.group n) ≤ 1) (hat : ∀ n, .group n ∈ slots → AtHand drafts built n) :
    ∃ r, takeNodes? slots built = some r ∧ Unfolds drafts slots r.1 ∧ r.2.size = built.size ∧
      ∀ n, .group n ∉ slots → r.2[n]? = built[n]? := by
  induction slots generalizing built with
  | nil => exact ⟨_, rfl, .nil, rfl, fun _ _ => rfl⟩
  | cons slot slots ih =>
    have hone' : ∀ n, slots.count (.group n) ≤ 1 := fun n => (List.count_le_count_cons).trans (hone n)
    cases slot with
    | leaf t =>
      obtain ⟨r, hr, hu, hsize, hrest⟩ := ih hone' fun n hn => hat n (List.mem_cons_of_mem _ hn)
      refine ⟨(.leaf t :: r.1, r.2), by rw [takeNodes?, hr]; rfl, .leaf t hu, hsize, fun n hn => ?_⟩
      exact hrest n fun h => hn (List.mem_cons_of_mem _ h)
    | group m =>
      obtain ⟨d, inner, hd, hb, hin⟩ := hat m List.mem_cons_self
      have hne : ∀ n, .group n ∈ slots → n ≠ m := by
        rintro n hn rfl
        have hc := hone n
        rw [List.count_cons_self] at hc
        have hpos := List.count_pos_iff.2 hn
        omega
      have hat' : ∀ n, .group n ∈ slots → AtHand drafts (built.setIfInBounds m none) n := by
        intro n hn
        obtain ⟨e, ns, he, hbn, hu⟩ := hat n (List.mem_cons_of_mem _ hn)
        refine ⟨e, ns, he, ?_, hu⟩
        rw [Array.getElem?_setIfInBounds_ne (hne n hn).symm, hbn]
      obtain ⟨r, hr, hu, hsize, hrest⟩ := ih hone' hat'
      refine ⟨(.group inner :: r.1, r.2), ?_, .group hd hin hu, ?_, fun n hn => ?_⟩
      · rw [takeNodes?, hb, Option.join_some, Option.bind_some, hr]
        rfl
      · exact hsize.trans Array.size_setIfInBounds
      · have hnm : m ≠ n := by
          rintro rfl
          exact hn List.mem_cons_self
        have hr' := hrest n fun h => hn (List.mem_cons_of_mem _ h)
        rwa [Array.getElem?_setIfInBounds_ne hnm] at hr'

/-- Once the groups from number `k` on are done, the nodes of those are at hand that are held by a group still to be
done, and those of the text as a whole. -/
structure State.Ready (s : State) (k : Nat) (built : Array (Option (List Node))) : Prop where
  size : built.size = s.drafts.size
  atHand : ∀ n, k ≤ n → n < s.drafts.size → (n = 0 ∨ ∃ m < k, .group n ∈ s.slotsOf m) → AtHand s.drafts built n

namespace State.Sound
variable {g : Grouping} {s : State}

/-- Each group is held by one slot, in a group with a smaller number, so its nodes are there when that group is done,
and have not been taken. -/
theorem exists_assembleFrom? (h : s.Sound g) {k : Nat} {built : Array (Option (List Node))} (hk : k ≤ s.drafts.size)
    (hb : s.Ready k built) : ∃ built', assembleFrom? s.drafts k built = some built' ∧ s.Ready 0 built' := by
  induction k generalizing built with
  | zero => exact ⟨built, rfl, hb⟩
  | succ k ih =>
    have hd := Array.getElem?_eq_getElem (Nat.lt_of_succ_le hk)
    have hslots := slotsOf_of_draft hd
    have hone : ∀ n, (s.drafts[k].slots.reverse).count (.group n) ≤ 1 := by
      intro n
      rw [List.count_reverse, ← hslots]
      exact h.count_slot_le k n
    have hat : ∀ n, .group n ∈ s.drafts[k].slots.reverse → AtHand s.drafts built n := by
      intro n hn
      rw [List.mem_reverse, ← hslots] at hn
      exact hb.atHand n (h.heldOnceBy_of_slot hn).1 (h.lt_size_of_slot k n hn).2 (.inr ⟨k, Nat.lt_succ_self k, hn⟩)
    obtain ⟨r, hr, hu, hsize, hrest⟩ := exists_takeNodes? hone hat
    have hready : s.Ready k (r.2.setIfInBounds k (some r.1)) := by
      refine ⟨by rw [Array.size_setIfInBounds, hsize, hb.size], fun n hkn hn hheld => ?_⟩
      rcases Nat.eq_or_lt_of_le hkn with rfl | hlt
      · refine ⟨_, r.1, hd, ?_, hu⟩
        rw [Array.getElem?_setIfInBounds_self_of_lt]
        rwa [hsize, hb.size]
      · obtain rfl | ⟨m, hm, hslot⟩ := hheld
        · exact absurd hlt (Nat.not_lt_zero k)
        · -- held by another group, so not taken just now
          have hnot : .group n ∉ s.drafts[k].slots.reverse := by
            intro hmem
            rw [List.mem_reverse, ← hslots] at hmem
            exact Nat.ne_of_gt hm ((h.heldOnceBy_of_slot hslot).2.eq_of_slot hmem)
          obtain ⟨e, ns, he, hbn, hun⟩ := hb.atHand n hlt hn (.inr ⟨m, Nat.lt_succ_of_lt hm, hslot⟩)
          refine ⟨e, ns, he, ?_, hun⟩
          rw [Array.getElem?_setIfInBounds_ne (Nat.ne_of_lt hlt), hrest n hnot, hbn]
    obtain ⟨built', hb', hready'⟩ := ih (Nat.le_of_succ_le hk) hready
    refine ⟨built', ?_, hready'⟩
    rw [assembleFrom?, hd]
    simpa [hr] using hb'

theorem exists_tree? (h : s.Sound g) : ∃ t, s.tree? = some t ∧ Unfolds s.drafts (s.slotsOf 0).reverse t := by
  have hstart : s.Ready s.drafts.size (Array.replicate s.drafts.size none) :=
    ⟨Array.size_replicate, fun n hle hlt _ => absurd hlt (Nat.not_lt.2 hle)⟩
  obtain ⟨built, hb, hready⟩ := h.exists_assembleFrom? (Nat.le_refl _) hstart
  have hpos : 0 < s.drafts.size := Nat.zero_lt_of_lt h.current_lt_size
  obtain ⟨d, t, hd, ht, hu⟩ := hready.atHand 0 (Nat.le_refl 0) hpos (.inl rfl)
  refine ⟨t, ?_, slotsOf_of_draft hd ▸ hu⟩
  rw [tree?, hb, Option.bind_some, ht]
  rfl

theorem tree?_eq (h : s.Sound g) {c : Cursor} (hc : s.Shows c) : s.tree? = some s.tree := by
  obtain ⟨t, ht, hu⟩ := h.exists_tree?
  rw [ht, hu.unique hc.unfolds_tree]

end State.Sound

/-! Taking in pieces. -/

namespace State

def innermost? (s : State) : Option (Nat × Draft) :=
  s.openGroups.head?.bind fun n => s.drafts[n]?.map fun d => (n, d)

def put? (s : State) (slot : Slot) : Option State :=
  s.innermost?.map fun i =>
    { s with drafts := s.drafts.setIfInBounds i.1 { i.2 with slots := slot :: i.2.slots } }

def enter? (s : State) (o : Opening) : Option State :=
  let number := s.drafts.size
  (s.put? (.group number)).map fun s =>
    { drafts := s.drafts.push { opening := some o }, openGroups := number :: s.openGroups }

def awaits? (s : State) (token : String) : Option Bool :=
  if s.isNested then s.innermost?.map fun i => i.2.opening.any (·.closer == token) else some false

def finish? (s : State) (mode : Mode) : Option (Except Error Tree) :=
  if s.isNested && mode = .strict then do
    let o ← s.innermost?.bind (·.2.opening)
    some (.error (.unbalanced s.depth o.token o.offset))
  else s.tree?.map .ok

end State

def openStep? (g : Grouping) (s : State) (p : Piece) : Option State :=
  match g.bounds.find? p.text with
  | some closer => s.enter? ⟨p.text, p.offset, closer⟩
  | none => some s

def leafStep? (g : Grouping) (s : State) (p : Piece) : Option State :=
  if g.strip.contains p.text then some s else s.put? (.leaf p.text)

/-- Takes in one piece. Whether it is refused is asked last. -/
def step? (g : Grouping) (mode : Mode) (s : State) (p : Piece) : Option (Except Error State) :=
  if p.text = "" then some (.ok s)
  else do
    let s ← g.openStep? s p
    let s ← g.leafStep? s p
    let due ← s.awaits? p.text
    if due then some (.ok s.leave)
    else if mode = .strict && (g.bounds.values.contains p.text && !g.bounds.contains p.text) then
      some (.error (.unexpectedClose p.text p.offset))
    else some (.ok s)

def runFrom? (g : Grouping) (mode : Mode) (s : State) : List Piece → Option (Except Error Tree)
  | [] => s.finish? mode
  | p :: ps => (g.step? mode s p).bind fun
    | .error e => some (.error e)
    | .ok s => g.runFrom? mode s ps

/-- Grouping without fallbacks. -/
def run? (g : Grouping) (mode : Mode) (ps : List Piece) : Option (Except Error Tree) := g.runFrom? mode {} ps

namespace State.Sound
variable {g : Grouping} {s : State}

theorem exists_innermost? (h : s.Sound g) :
    ∃ d, s.innermost? = some (s.current, d) ∧ s.drafts[s.current]? = some d := by
  have hd := Array.getElem?_eq_getElem h.current_lt_size
  refine ⟨_, ?_, hd⟩
  rw [innermost?, h.openGroups_eq, List.head?_cons, Option.bind_some, hd]
  rfl

theorem put?_eq (h : s.Sound g) (slot : Slot) : s.put? slot = some (s.put slot) := by
  obtain ⟨d, hi, hd⟩ := h.exists_innermost?
  have hset : s.drafts.setIfInBounds s.current { d with slots := slot :: d.slots } =
      s.drafts.modify s.current fun d => { d with slots := slot :: d.slots } := by
    apply Array.ext_getElem?
    intro n
    rw [Array.getElem?_setIfInBounds, Array.getElem?_modify]
    split_ifs with hn hlt
    · subst hn
      rw [hd]
      rfl
    · exact absurd h.current_lt_size hlt
    · rfl
  rw [put?, hi, Option.map_some, hset]
  rfl

theorem enter?_eq (h : s.Sound g) (o : Opening) : s.enter? o = some (s.enter o) := by
  rw [enter?, h.put?_eq]
  rfl

theorem awaits?_eq (h : s.Sound g) (t : String) : s.awaits? t = some (s.awaits t) := by
  obtain ⟨d, hi, hd⟩ := h.exists_innermost?
  rw [awaits?, hi, awaits, opening?, hd]
  cases s.isNested <;> rfl

theorem finish?_lenient (h : s.Sound g) {c : Cursor} (hc : s.Shows c) : s.finish? .lenient = some (.ok s.tree) := by
  rw [finish?, h.tree?_eq hc]
  simp

theorem finish?_strict (h : s.Sound g) {c : Cursor} (hc : s.Shows c) : s.finish? .strict = some s.close := by
  rw [finish?, close, h.tree?_eq hc]
  cases hn : s.isNested with
  | false => rfl
  | true =>
    obtain ⟨d, hi, hd⟩ := h.exists_innermost?
    obtain ⟨o, ho, -⟩ := h.opening s.current (h.current_pos hn) h.current_lt_size
    rw [openingOf?, hd, Option.bind_some] at ho
    rw [hi, opening?, hd]
    simp [ho]

end State.Sound

theorem State.awaits_put (s : State) (slot : Slot) (t : String) : (s.put slot).awaits t = s.awaits t :=
  congrArg (fun o => s.isNested && Option.any (fun x : Opening => x.closer == t) o) (openingOf?_put slot s.current)

section
variable {g : Grouping} {s : State} {p : Piece}

theorem openStep?_eq (h : s.Sound g) (p : Piece) : g.openStep? s p = some (g.openStep s p) := by
  unfold openStep? openStep
  cases g.bounds.find? p.text with
  | none => rfl
  | some closer => exact h.enter?_eq _

theorem leafStep?_eq (h : s.Sound g) (p : Piece) : g.leafStep? s p = some (g.leafStep s p) := by
  unfold leafStep? leafStep
  split_ifs
  · rfl
  · exact h.put?_eq _

/-- Putting in a piece that opens no group changes nothing of what is waited for, so whether it is refused can be told
before and after. -/
theorem strays_eq_of_put_in (he : p.text ≠ "") :
    (!(g.leafStep (g.openStep s p) p).awaits p.text &&
      (g.bounds.values.contains p.text && !g.bounds.contains p.text)) = g.strays s p := by
  cases hf : g.bounds.find? p.text with
  | some closer => simp [strays, StringMap.contains_of_find? hf]
  | none =>
    have hleaf : (g.leafStep (g.openStep s p) p).awaits p.text = s.awaits p.text := by
      unfold openStep leafStep
      rw [hf]
      split_ifs
      · rfl
      · exact s.awaits_put _ _
    rw [hleaf, strays, decide_eq_true he, Bool.true_and, Bool.and_comm, Bool.and_comm (g.bounds.values.contains _)]

theorem step?_eq (h : s.Sound g) (mode : Mode) (p : Piece) :
    g.step? mode s p = some (if mode = .strict && g.strays s p then .error (.unexpectedClose p.text p.offset)
      else .ok (g.step s p)) := by
  by_cases he : p.text = ""
  · simp [step?, step, strays, he]
  · have hdue := ((h.openStep p).leafStep p).awaits?_eq p.text
    have hstray := @strays_eq_of_put_in g s p he
    rw [step?, if_neg he]
    simp only [openStep?_eq h, leafStep?_eq (h.openStep p), hdue, Option.bind_eq_bind, Option.bind_some]
    rw [← hstray, step, if_neg he, closeStep]
    cases (g.leafStep (g.openStep s p) p).awaits p.text with
    | true => simp
    | false =>
      simp only [Bool.false_eq_true, if_false, Bool.not_false, Bool.true_and]
      split_ifs <;> rfl

theorem runFrom?_lenient (h : s.Sound g) {c : Cursor} (hc : s.Shows c) (ps : List Piece) :
    g.runFrom? .lenient s ps = some (.ok (ps.foldl g.step s).tree) := by
  induction ps generalizing s c with
  | nil => exact h.finish?_lenient hc
  | cons p ps ih =>
    rw [runFrom?, step?_eq h]
    exact ih (h.step p) (hc.step g p)

theorem runFrom?_strict (h : s.Sound g) {c : Cursor} (hc : s.Shows c) (ps : List Piece) :
    g.runFrom? .strict s ps = some (ps.foldlM g.strictStep s >>= State.close) := by
  induction ps generalizing s c with
  | nil => exact h.finish?_strict hc
  | cons p ps ih =>
    rw [runFrom?, step?_eq h, List.foldlM_cons, strictStep]
    cases g.strays s p with
    | true => rfl
    | false => exact ih (h.step p) (hc.step g p)

end

/-- Grouping has come to `s` after some pieces, none of which it has refused. -/
def Reaches (g : Grouping) (mode : Mode) (ps : List Piece) (s : State) : Prop :=
  match mode with
  | .lenient => ps.foldl g.step {} = s
  | .strict => ps.foldlM g.strictStep {} = .ok s

theorem foldl_eq_of_reaches {g : Grouping} {mode : Mode} {ps : List Piece} {s : State} (h : g.Reaches mode ps s) :
    ps.foldl g.step {} = s := by
  cases mode with
  | lenient => exact h
  | strict => exact foldl_eq_of_foldlM_ok (fun _ _ _ => step_eq_of_strictStep) h

/-- After each piece the numbered groups are sound, and the tree is what the slots of the text as a whole stand for.
So grouping comes to the same when it gives up wherever it would take a fallback. -/
theorem sound_and_without_fallback (g : Grouping) (ps : List Piece) :
    (∀ mode qs s, qs <+: ps → g.Reaches mode qs s →
      s.Sound g ∧ ∀ t, Unfolds s.drafts (s.slotsOf 0).reverse t ↔ t = s.tree) ∧
    g.run? .lenient ps = some (.ok (g.group ps)) ∧ g.run? .strict ps = some (g.groupStrict ps) := by
  refine ⟨fun mode qs s _ h => ?_, runFrom?_lenient (.init g) .init ps, runFrom?_strict (.init g) .init ps⟩
  rw [← foldl_eq_of_reaches h]
  have hu := (State.Shows.init.foldl_step g qs).unfolds_tree
  refine ⟨(State.Sound.init g).foldl_step qs, fun t => ⟨fun ht => ht.unique hu, ?_⟩⟩
  rintro rfl
  exact hu

/-- An opening token that another group waits for, a token that closes its own group, and a token left out; the
outermost of the three groups is left open. -/
theorem sound_and_without_fallback_one_open :
    let g : Grouping := ⟨.ofList [("(", ")"), ("[", "("), ("|", "|")], ["a"]⟩
    let qs : List Piece := [⟨true, "[", 0⟩, ⟨true, "|", 1⟩, ⟨true, "(", 2⟩, ⟨true, "a", 3⟩, ⟨true, ")", 4⟩]
    let ps := qs ++ [⟨false, "", 5⟩, ⟨false, "x", 5⟩]
    let s := qs.foldl g.step {}
    let opened : List Node := [.leaf "[", .group [.leaf "|"], .group [.leaf "(", .leaf ")"]]
    qs <+: ps ∧ g.Reaches .lenient qs s ∧ s.openGroups = [1, 0] ∧ s.slotsOf 1 = [.group 3, .group 2, .leaf "["] ∧
      s.Sound g ∧ Unfolds s.drafts (s.slotsOf 0).reverse [.group opened] ∧
      g.run? .lenient ps = some (.ok [.group (opened ++ [.leaf "x"])]) ∧
      g.run? .strict ps = some (.error (.unbalanced 1 "[" 0)) := by
  intro g qs ps s opened
  have hps : qs <+: ps := List.prefix_append _ _
  have htree : s.tree = [.group opened] := by decide +kernel
  have hgroup : g.group ps = [.group (opened ++ [.leaf "x"])] := by decide +kernel
  have hstrict : g.groupStrict ps = .error (.unbalanced 1 "[" 0) := by decide +kernel
  obtain ⟨hreached, hlenient, hrun⟩ := sound_and_without_fallback g ps
  obtain ⟨hsound, hunfolds⟩ := hreached .lenient qs s hps rfl
  exact ⟨hps, rfl, by decide +kernel, by decide +kernel, hsound, (hunfolds _).2 htree.symm, hgroup ▸ hlenient,
    hstrict ▸ hrun⟩

end BracketTree.Grouping
