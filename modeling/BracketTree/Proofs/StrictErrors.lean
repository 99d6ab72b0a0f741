import BracketTree.Proofs.Closability
import BracketTree.Proofs.Lossless
import BracketTree.Proofs.OpenGroups

/-! What the errors of strict grouping say. The token of an error stands in the text where the error says it does. With
rules against which nothing stands, strict grouping stops at the first closing token behind which nothing could make up
for it, and for the groups a text leaves open it names how many there are and where the innermost one began. -/

namespace BracketTree

namespace Grouping

/-- Whatever follows the pieces, strict grouping does not accept it all. -/
def Hopeless (g : Grouping) (ps : List Piece) : Prop := ∀ qs, ps <+: qs → ¬ g.Admits qs

section
variable {g : Grouping} {c c' : Cursor} {ps qs : List Piece} {p : Piece} {e : Error}

/-! Where strict grouping stops. -/

theorem strictStep_of_strays (h : c.strays g p = true) :
    Cursor.strictStep g c p = .error (.unexpectedClose p.text p.offset) := if_pos h

theorem strictStep_of_not_strays (h : c.strays g p = false) : Cursor.strictStep g c p = .ok (c.step g p) :=
  if_neg (Bool.eq_false_iff.1 h)

theorem foldlM_of_strays (hrun : ps.foldlM (Cursor.strictStep g) c = .ok c') (hs : c'.strays g p = true)
    (after : List Piece) :
    (ps ++ p :: after).foldlM (Cursor.strictStep g) c = .error (.unexpectedClose p.text p.offset) := by
  have hstop : (p :: after).foldlM (Cursor.strictStep g) c' = .error (.unexpectedClose p.text p.offset) := by
    rw [List.foldlM_cons, strictStep_of_strays hs]
    rfl
  rw [List.foldlM_append, hrun]
  exact hstop

/-- Strict grouping stops only at a piece that strays from where the pieces in front of it lead. -/
theorem exists_strays_of_foldlM (h : ps.foldlM (Cursor.strictStep g) c = .error e) :
    ∃ before p after c', ps = before ++ p :: after ∧ before.foldlM (Cursor.strictStep g) c = .ok c' ∧
      c'.strays g p = true ∧ e = .unexpectedClose p.text p.offset := by
  induction ps generalizing c with
  | nil => cases h
  | cons p ps ih =>
    rw [List.foldlM_cons] at h
    cases hs : c.strays g p with
    | true =>
      rw [strictStep_of_strays hs] at h
      exact ⟨[], p, ps, c, rfl, rfl, hs, (Except.error.inj h).symm⟩
    | false =>
      rw [strictStep_of_not_strays hs] at h
      obtain ⟨before, p', after, c', rfl, hrun, hs', rfl⟩ := ih h
      refine ⟨p :: before, p', after, c', rfl, ?_, hs', rfl⟩
      rw [List.foldlM_cons, strictStep_of_not_strays hs]
      exact hrun

theorem close_eq_error_iff :
    c.close = .error e ↔ ∃ o os, c.openings = o :: os ∧ e = .unbalanced c.openings.length o.token o.offset := by
  obtain ⟨here, _ | ⟨⟨o, before⟩, around⟩⟩ := c
  · simp [Cursor.close, Cursor.openings]
  · simp [Cursor.close, Cursor.openings, eq_comm]

theorem groupStrict_eq_error_iff : g.groupStrict ps = .error e ↔
    ps.foldlM (Cursor.strictStep g) {} = .error e ∨
      ∃ c, ps.foldlM (Cursor.strictStep g) {} = .ok c ∧ c.close = .error e := by
  rw [groupStrict_eq]
  cases ps.foldlM (Cursor.strictStep g) {} with
  | error e' =>
    have hbind : (Except.error e' >>= Cursor.close) = .error e' := rfl
    simp [hbind]
  | ok c =>
    have hbind : (Except.ok c >>= Cursor.close) = c.close := rfl
    simp [hbind]

theorem groupStrict_eq_unexpectedClose_iff {t : String} {n : Nat} :
    g.groupStrict ps = .error (.unexpectedClose t n) ↔
      ps.foldlM (Cursor.strictStep g) {} = .error (.unexpectedClose t n) := by
  rw [groupStrict_eq_error_iff]
  refine or_iff_left ?_
  rintro ⟨c, -, hclose⟩
  obtain ⟨o, os, -, he⟩ := close_eq_error_iff.1 hclose
  cases he

/-- At the end of the pieces strict grouping finds the groups it is in. -/
theorem groupStrict_eq_unbalanced_iff {d : Nat} {t : String} {n : Nat} :
    g.groupStrict ps = .error (.unbalanced d t n) ↔
      ∃ c o os, ps.foldlM (Cursor.strictStep g) {} = .ok c ∧ c.openings = o :: os ∧
        c.openings.length = d ∧ o.token = t ∧ o.offset = n := by
  rw [groupStrict_eq_error_iff]
  constructor
  · rintro (h | ⟨c, hrun, hclose⟩)
    · obtain ⟨_, p, _, _, -, -, -, he⟩ := exists_strays_of_foldlM h
      cases he
    · obtain ⟨o, os, ho, he⟩ := close_eq_error_iff.1 hclose
      obtain ⟨rfl, rfl, rfl⟩ := Error.unbalanced.inj he
      exact ⟨c, o, os, hrun, ho, rfl, rfl, rfl⟩
  · rintro ⟨c, o, os, hrun, ho, rfl, rfl, rfl⟩
    exact .inr ⟨c, hrun, close_eq_error_iff.2 ⟨o, os, ho, rfl⟩⟩

/-! What pieces can follow. -/

theorem length_due_le (bounds : StringMap String) (ks : List String) (t : String) :
    ks.length ≤ (due bounds ks t).length + 1 := by
  unfold due
  grind

theorem length_le_of_accepts {bounds : StringMap String} {ks w : List String} (h : accepts bounds ks w = true) :
    ks.length ≤ w.length := by
  induction w generalizing ks with
  | nil => rw [List.isEmpty_iff.1 h]
  | cons t w ih =>
    have hw := ih (Bool.and_eq_true_iff.1 h).2
    have hdue := length_due_le bounds ks t
    rw [List.length_cons]
    omega

/-- What is due can be given at once, innermost first. -/
theorem accepts_self_of_tidy {bounds : StringMap String} (ht : Tidy bounds) {ks : List String}
    (hks : ∀ k ∈ ks, k ∈ bounds.values) : accepts bounds ks ks = true := by
  induction ks with
  | nil => rfl
  | cons k ks ih =>
    rw [accepts_close (ht.find?_closer k (hks k List.mem_cons_self))]
    exact ih fun k' hk' => hks k' (List.mem_cons_of_mem _ hk')

theorem admits_append_iff (hrun : ps.foldlM (Cursor.strictStep g) {} = .ok c) :
    g.Admits (ps ++ qs) ↔ accepts g.bounds (c.openings.map (·.closer)) (words qs) = true := by
  have hk : c.openings.map (·.closer) = c.closers := List.map_map
  rw [Admits, groupStrict_eq, List.foldlM_append, hrun, hk]
  exact strict_ok_iff_accepts g c qs

theorem closer_mem_values (hrun : ps.foldlM (Cursor.strictStep g) {} = .ok c) {k : String}
    (hk : k ∈ c.openings.map (·.closer)) : k ∈ g.bounds.values := by
  obtain ⟨o, ho, rfl⟩ := List.mem_map.1 hk
  obtain ⟨p, -, -, -, hf⟩ := (leavesOpen_of_foldlM hrun).exists_piece ho
  exact StringMap.mem_values_of_find? hf

/-- Closing tokens for all groups around, innermost first, make up for what is missing. -/
theorem admits_closers (ht : Tidy g.bounds) (hrun : ps.foldlM (Cursor.strictStep g) {} = .ok c)
    (hqs : qs.map (·.text) = c.openings.map (·.closer)) : g.Admits (ps ++ qs) := by
  have hks := fun k => closer_mem_values (k := k) hrun
  have hw : words qs = c.openings.map (·.closer) := by
    rw [words, hqs]
    exact List.filter_eq_self.2 fun k hk => decide_eq_true (ht.ne_empty k (hks k hk))
  rw [admits_append_iff hrun, hw]
  exact accepts_self_of_tidy ht hks

theorem length_le_of_admits (hrun : ps.foldlM (Cursor.strictStep g) {} = .ok c) (h : g.Admits (ps ++ qs)) :
    c.openings.length ≤ qs.length := by
  have hle := length_le_of_accepts ((admits_append_iff hrun).1 h)
  have hw : (words qs).length ≤ (qs.map (·.text)).length := List.length_filter_le ..
  rw [List.length_map] at hle hw
  omega

theorem Hopeless.append (h : g.Hopeless ps) (qs : List Piece) : g.Hopeless (ps ++ qs) :=
  fun rs hrs => h rs ((List.prefix_append ps qs).trans hrs)

theorem hopeless_of_error (h : ps.foldlM (Cursor.strictStep g) {} = .error e) : g.Hopeless ps := by
  rintro _ ⟨qs, rfl⟩ ⟨t, ht⟩
  rw [groupStrict_eq, List.foldlM_append, h] at ht
  cases ht

theorem not_hopeless_of_ok (ht : Tidy g.bounds) (hrun : ps.foldlM (Cursor.strictStep g) {} = .ok c) :
    ¬ g.Hopeless ps := by
  have htexts : (c.openings.map fun o => (⟨true, o.closer, 0⟩ : Piece)).map (·.text) =
      c.openings.map (·.closer) := List.map_map
  exact fun h => h _ (List.prefix_append ..) (admits_closers ht hrun htexts)

/-- Strict grouping gets through just the pieces that can be made up for. -/
theorem not_hopeless_iff (ht : Tidy g.bounds) :
    ¬ g.Hopeless ps ↔ ∃ c, ps.foldlM (Cursor.strictStep g) {} = .ok c := by
  cases hrun : ps.foldlM (Cursor.strictStep g) {} with
  | error e =>
    constructor
    · exact fun h => absurd (hopeless_of_error hrun) h
    · rintro ⟨c, hc⟩
      cases hc
  | ok c => exact ⟨fun _ => ⟨c, rfl⟩, fun _ => not_hopeless_of_ok ht hrun⟩

/-- Strict grouping gets through the pieces in front of the first ones that are hopeless. -/
theorem not_hopeless_take {i : Nat} (ht : Tidy g.bounds) (h : ∀ j < i, ¬ g.Hopeless (ps.take (j + 1))) :
    ¬ g.Hopeless (ps.take i) := by
  cases i with
  | zero => exact not_hopeless_of_ok (c := {}) ht rfl
  | succ i => exact h i (Nat.lt_succ_self i)

end

/-- What the errors of strict grouping say of pieces. -/
structure EarliestErrors (g : Grouping) (ps : List Piece) : Prop where
  /-- The first piece that cannot be made up for is named. Pieces may be alike in text and offset, so the error does not
  tell which of these it names. -/
  unexpectedClose_iff : ∀ t n, g.groupStrict ps = .error (.unexpectedClose t n) ↔
    ∃ i p, ps[i]? = some p ∧ p.text = t ∧ p.offset = n ∧ g.Hopeless (ps.take (i + 1)) ∧
      ∀ j < i, ¬ g.Hopeless (ps.take (j + 1))
  unbalanced_iff : (∃ d t n, g.groupStrict ps = .error (.unbalanced d t n)) ↔
    ¬ g.Admits ps ∧ ∃ qs, ps <+: qs ∧ g.Admits qs
  depth_eq : ∀ d t n, g.groupStrict ps = .error (.unbalanced d t n) → (leftOpen g.bounds ps).length = d
  innermost : ∀ d t n, g.groupStrict ps = .error (.unbalanced d t n) →
    ∃ o, (leftOpen g.bounds ps).getLast? = some o ∧ o.token = t ∧ o.offset = n
  /-- The closing tokens of the groups left open, innermost first, are enough. -/
  repaired : ∀ d t n, g.groupStrict ps = .error (.unbalanced d t n) → ∀ qs,
    qs.map (·.text) = (leftOpen g.bounds ps).reverse.map (·.closer) → g.Admits (ps ++ qs)
  least : ∀ d t n, g.groupStrict ps = .error (.unbalanced d t n) → ∀ qs, g.Admits (ps ++ qs) → d ≤ qs.length

section
variable {g : Grouping} {ps : List Piece}

theorem unexpectedClose_iff_first_hopeless (ht : Tidy g.bounds) (t : String) (n : Nat) :
    g.groupStrict ps = .error (.unexpectedClose t n) ↔
      ∃ i p, ps[i]? = some p ∧ p.text = t ∧ p.offset = n ∧ g.Hopeless (ps.take (i + 1)) ∧
        ∀ j < i, ¬ g.Hopeless (ps.take (j + 1)) := by
  rw [groupStrict_eq_unexpectedClose_iff]
  constructor
  · intro h
    obtain ⟨before, p, after, c, rfl, hrun, hs, he⟩ := exists_strays_of_foldlM h
    obtain ⟨rfl, rfl⟩ := Error.unexpectedClose.inj he
    refine ⟨before.length, p, by simp, rfl, rfl, ?_, ?_⟩
    · rw [List.append_cons, List.take_left' (by simp)]
      exact hopeless_of_error (foldlM_of_strays hrun hs [])
    · intro j hj hhopeless
      rw [List.take_append_of_le_length (by omega)] at hhopeless
      refine not_hopeless_of_ok ht hrun ?_
      rw [← List.take_append_drop (j + 1) before]
      exact hhopeless.append _
  · rintro ⟨i, p, hp, rfl, rfl, hhopeless, hfirst⟩
    obtain ⟨c, hrun⟩ := (not_hopeless_iff ht).1 (not_hopeless_take ht hfirst)
    have hps : ps = ps.take i ++ p :: ps.drop (i + 1) := by
      obtain ⟨hi, rfl⟩ := List.getElem?_eq_some_iff.1 hp
      rw [← List.drop_eq_getElem_cons hi, List.take_append_drop]
    rw [hps]
    refine foldlM_of_strays hrun ?_ _
    -- otherwise strict grouping would get through this piece too
    by_contra hs
    have hstep : [p].foldlM (Cursor.strictStep g) c = .ok (c.step g p) := by
      rw [List.foldlM_cons, strictStep_of_not_strays (Bool.eq_false_iff.2 hs)]
      rfl
    refine not_hopeless_of_ok (c := c.step g p) ht ?_ hhopeless
    rw [List.take_add_one, hp, Option.toList_some, List.foldlM_append, hrun]
    exact hstep

theorem unbalanced_iff_unended (ht : Tidy g.bounds) :
    (∃ d t n, g.groupStrict ps = .error (.unbalanced d t n)) ↔ ¬ g.Admits ps ∧ ∃ qs, ps <+: qs ∧ g.Admits qs := by
  constructor
  · rintro ⟨d, t, n, h⟩
    obtain ⟨c, o, os, hrun, -⟩ := groupStrict_eq_unbalanced_iff.1 h
    refine ⟨?_, ?_⟩
    · rintro ⟨tree, htree⟩
      rw [h] at htree
      cases htree
    · simpa [Hopeless] using not_hopeless_of_ok ht hrun
  · rintro ⟨hps, qs, hqs, hadmits⟩
    obtain ⟨c, hrun⟩ := (not_hopeless_iff ht).1 fun h => h qs hqs hadmits
    cases ho : c.openings with
    | nil =>
      -- nothing would be due, and the pieces would be accepted as they are
      refine absurd ?_ hps
      rw [← List.append_nil ps, admits_append_iff hrun, ho]
      rfl
    | cons o os => exact ⟨_, _, _, groupStrict_eq_unbalanced_iff.2 ⟨c, o, os, hrun, ho, rfl, rfl, rfl⟩⟩

theorem earliestErrors (ht : Tidy g.bounds) (ps : List Piece) : EarliestErrors g ps where
  unexpectedClose_iff := unexpectedClose_iff_first_hopeless ht
  unbalanced_iff := unbalanced_iff_unended ht
  depth_eq d t n h := by
    obtain ⟨c, o, os, hrun, -, rfl, -⟩ := groupStrict_eq_unbalanced_iff.1 h
    rw [(leavesOpen_of_foldlM hrun).leftOpen_eq ht, List.length_reverse]
  innermost d t n h := by
    obtain ⟨c, o, os, hrun, ho, -, rfl, rfl⟩ := groupStrict_eq_unbalanced_iff.1 h
    refine ⟨o, ?_, rfl, rfl⟩
    rw [(leavesOpen_of_foldlM hrun).leftOpen_eq ht, List.getLast?_reverse, ho]
    rfl
  repaired d t n h qs hqs := by
    obtain ⟨c, -, -, hrun, -⟩ := groupStrict_eq_unbalanced_iff.1 h
    rw [(leavesOpen_of_foldlM hrun).leftOpen_eq ht, List.reverse_reverse] at hqs
    exact admits_closers ht hrun hqs
  least d t n h qs hqs := by
    obtain ⟨c, -, -, hrun, -, rfl, -⟩ := groupStrict_eq_unbalanced_iff.1 h
    exact length_le_of_admits hrun hqs

end
end Grouping

namespace Vocabulary

/-- A token stands in a text, `offset` bytes from where the text begins. -/
def OccursAt (text token : String) (offset : Nat) : Prop :=
  ∃ before after, text = before ++ token ++ after ∧ before.utf8ByteSize = offset

theorem occursAt_of_mem_split {ts : List String} {text : String} {p : Piece} (hp : p ∈ (ofTokens ts).split text) :
    OccursAt text p.text p.offset := by
  obtain ⟨before, after, he⟩ := List.append_of_mem hp
  refine ⟨String.join (before.map (·.text)), String.join (after.map (·.text)), ?_, ?_⟩
  · have hjoin := join_split ts text
    rw [he, List.map_append, List.map_cons, String.join_append, String.join_cons, ← String.append_assoc] at hjoin
    exact hjoin.symm
  · have hoffset := (segmentation_split ts text).offset_eq before p after he
    rw [hoffset, Nat.zero_add]

end Vocabulary

theorem Rules.Clean.tidy {r : Rules} (h : r.Clean) : Grouping.Tidy r.bounds := by
  have hmem : ∀ t, t ∈ r.boundTokens → t ∈ r.tokens := fun t ht => mem_tokens_iff.2 (.inl ht)
  constructor
  · rw [← StringMap.contains_eq_false_iff, ← Bool.not_eq_true]
    intro hc
    exact h.not_empty (hmem _ (List.mem_append_left _ (isOpener_iff.1 hc)))
  · rintro k hk rfl
    exact h.not_empty (hmem _ (List.mem_append_right _ hk))
  · intro k hk
    rw [← StringMap.contains_eq_false_iff, ← Bool.not_eq_true]
    exact fun hc => h.disjoint k (isOpener_iff.1 hc) hk

namespace Parser

/-- An error names a token that can be at fault, and where it stands in the text. -/
def Located (r : Rules) (text : String) : Grouping.Error → Prop
  | .unexpectedClose token offset =>
    token ∈ r.closers ∧ r.isOpener token = false ∧ Vocabulary.OccursAt text token offset
  | .unbalanced depth token offset =>
    1 ≤ depth ∧ r.isOpener token = true ∧ Vocabulary.OccursAt text token offset

theorem located_of_error {r : Rules} {text : String} {e : Grouping.Error}
    (h : parse ⟨r, .strict⟩ text = .error e) : Located r text e := by
  have hat : ∀ p ∈ pieces r text, Vocabulary.OccursAt text p.text p.offset :=
    fun p hp => Vocabulary.occursAt_of_mem_split hp
  have hg : Grouping.groupStrict ⟨r.bounds, r.strip⟩ (pieces r text) = .error e := h
  cases e with
  | unexpectedClose t n =>
    obtain ⟨before, p, after, c, hps, -, hs, he⟩ :=
      Grouping.exists_strays_of_foldlM (Grouping.groupStrict_eq_unexpectedClose_iff.1 hg)
    obtain ⟨rfl, rfl⟩ := Grouping.Error.unexpectedClose.inj he
    have hp : p ∈ pieces r text := hps ▸ List.mem_append_right _ List.mem_cons_self
    simp only [Grouping.Cursor.strays, Bool.and_eq_true, Bool.not_eq_true', List.contains_iff_mem] at hs
    exact ⟨hs.1.2, hs.1.1.2, hat p hp⟩
  | unbalanced d t n =>
    obtain ⟨c, o, os, hrun, ho, rfl, rfl, rfl⟩ := Grouping.groupStrict_eq_unbalanced_iff.1 hg
    obtain ⟨p, hp, htext, hoffset, hf⟩ := (Grouping.leavesOpen_of_foldlM hrun).exists_piece (ho ▸ List.mem_cons_self)
    rw [← htext, ← hoffset]
    refine ⟨?_, StringMap.contains_of_find? hf, hat p hp⟩
    rw [ho, List.length_cons]
    omega

/-- The errors of strict mode stand where they say, and when nothing stands against the rules they come as early as they
can and say what is missing. -/
theorem strict_errors_located_and_earliest (r : Rules) :
    (∀ text e, parse ⟨r, .strict⟩ text = .error e → Located r text e) ∧
      (r.objection? true = none → ∀ ps, Grouping.EarliestErrors ⟨r.bounds, r.strip⟩ ps) := by
  refine ⟨fun text e h => located_of_error h, fun h ps => ?_⟩
  exact Grouping.earliestErrors (Rules.objection?_strict_eq_none_iff.1 h).tidy ps

theorem strict_errors_located_and_earliest_square :
    let r : Rules := { bounds := .ofList [("(", ")"), ("[", "]")] }
    let g : Grouping := ⟨r.bounds, r.strip⟩
    let ps : List Piece := [⟨true, "(", 0⟩, ⟨true, "[", 1⟩, ⟨false, "a", 2⟩]
    parse ⟨r, .strict⟩ "é(]" = .error (.unexpectedClose "]" 3) ∧ Located r "é(]" (.unexpectedClose "]" 3) ∧
      r.objection? true = none ∧ g.groupStrict ps = .error (.unbalanced 2 "[" 1) ∧
      g.Admits (ps ++ [⟨true, "]", 3⟩, ⟨true, ")", 4⟩]) ∧ ∀ qs, g.Admits (ps ++ qs) → 2 ≤ qs.length := by
  intro r g ps
  obtain ⟨hlocated, hearliest⟩ := strict_errors_located_and_earliest r
  have hparse : parse ⟨r, .strict⟩ "é(]" = .error (.unexpectedClose "]" 3) := by decide +kernel
  have hnone : r.objection? true = none := by decide +kernel
  have hgroup : g.groupStrict ps = .error (.unbalanced 2 "[" 1) := by decide +kernel
  have he := hearliest hnone ps
  have hrepaired := he.repaired _ _ _ hgroup [⟨true, "]", 3⟩, ⟨true, ")", 4⟩] (by decide +kernel)
  exact ⟨hparse, hlocated _ _ hparse, hnone, hgroup, hrepaired, he.least _ _ _ hgroup⟩

end Parser
end BracketTree
