import BracketTree.Proofs.BracketLanguage

/-! Which groups a text leaves open. Where strict grouping gets through, the text is a word, then the opening token of a
group that has not ended, then a word again, and so on. So the groups around the cursor are those for whose opening
token the text has no end: no closing token behind it with only a word between the two. -/

namespace BracketTree.Grouping

def Cursor.openings (c : Cursor) : List Opening := c.around.map (·.1)

/-- Pieces that leave the groups `os` open, innermost first: words with opening tokens between them. -/
inductive LeavesOpen (bounds : StringMap String) : List Piece → List Opening → Prop
  | word {u : List Piece} : Balanced bounds (words u) → LeavesOpen bounds u []
  | begun {ps u : List Piece} {p : Piece} {os : List Opening} {closer : String} :
      LeavesOpen bounds ps os → p.text ≠ "" → bounds.find? p.text = some closer → closer ≠ p.text →
      Balanced bounds (words u) → LeavesOpen bounds (ps ++ p :: u) (⟨p.text, p.offset, closer⟩ :: os)

/-- Whether a group that waits for `closer` ends among the pieces behind its opening token: at a closing token that has
only a word in front of it. -/
def EndsIn (bounds : StringMap String) (closer : String) (ps : List Piece) : Prop :=
  ∃ n, n < ps.length ∧ ps[n]?.map (·.text) = some closer ∧ Balanced bounds (words (ps.take n))

instance (bounds : StringMap String) (w : List String) : Decidable (Balanced bounds w) :=
  decidable_of_iff _ accepts_nil_iff

instance (bounds : StringMap String) (closer : String) (ps : List Piece) : Decidable (EndsIn bounds closer ps) :=
  inferInstanceAs (Decidable (∃ n, n < ps.length ∧ _))

/-- How the groups began that do not end among the pieces, in the order in which they began. -/
def leftOpen (bounds : StringMap String) : List Piece → List Opening
  | [] => []
  | p :: ps =>
    match bounds.find? p.text with
    | none => leftOpen bounds ps
    | some closer =>
      if closer = p.text ∨ EndsIn bounds closer ps then leftOpen bounds ps
      else ⟨p.text, p.offset, closer⟩ :: leftOpen bounds ps

theorem words_append (ps qs : List Piece) : words (ps ++ qs) = words ps ++ words qs := by
  simp [words]

/-- A token in the words of pieces is one of the pieces, among empty ones perhaps. -/
theorem exists_piece_of_words {ps : List Piece} {a b : List String} {t : String} (h : words ps = a ++ t :: b) :
    ∃ u q v, ps = u ++ q :: v ∧ q.text = t ∧ words u = a ∧ words v = b := by
  induction ps generalizing a with
  | nil => cases a <;> cases h
  | cons p ps ih =>
    by_cases he : p.text = ""
    · rw [words_cons_of_eq he] at h
      obtain ⟨u, q, v, rfl, hq, hu, hv⟩ := ih h
      exact ⟨p :: u, q, v, rfl, hq, (words_cons_of_eq he u).trans hu, hv⟩
    · rw [words_cons_of_ne he] at h
      cases a with
      | nil =>
        obtain ⟨ht, hb⟩ := List.cons.inj h
        exact ⟨[], p, ps, rfl, ht, rfl, hb⟩
      | cons s a =>
        obtain ⟨hs, htail⟩ := List.cons.inj h
        obtain ⟨u, q, v, rfl, hq, hu, hv⟩ := ih htail
        exact ⟨p :: u, q, v, rfl, hq, by rw [words_cons_of_ne he, hs, hu], hv⟩

section
variable {bounds : StringMap String} {ps qs u v : List Piece} {p : Piece} {os : List Opening} {o : Opening}

/-! Where strict grouping gets through. -/

theorem LeavesOpen.append (h : LeavesOpen bounds ps os) (hu : Balanced bounds (words u)) :
    LeavesOpen bounds (ps ++ u) os := by
  cases h with
  | word hps =>
    refine .word ?_
    rw [words_append]
    exact hps.append_iff.2 hu
  | begun h hne hf hself hv =>
    rw [List.append_assoc, List.cons_append]
    refine .begun h hne hf hself ?_
    rw [words_append]
    exact hv.append_iff.2 hu

theorem LeavesOpen.close (h : LeavesOpen bounds ps (o :: os)) (hp : p.text = o.closer) (hne : p.text ≠ "")
    (hk : bounds.contains p.text = false) : LeavesOpen bounds (ps ++ [p]) os := by
  cases h with
  | @begun ps u q os closer h hq hf hself hu =>
    obtain rfl : p.text = closer := hp
    rw [List.append_assoc, List.cons_append]
    refine h.append ?_
    rw [words_cons_of_ne hq, words_append, words_cons_of_ne hne]
    exact .pair hf hself hk hu .empty

theorem LeavesOpen.step {g : Grouping} {c : Cursor} (h : LeavesOpen g.bounds ps c.openings)
    (hs : c.strays g p = false) : LeavesOpen g.bounds (ps ++ [p]) (c.step g p).openings := by
  by_cases he : p.text = ""
  · rw [c.step_empty he]
    refine h.append ?_
    rw [words_cons_of_eq he]
    exact .empty
  · have hw : words [p] = [p.text] := words_cons_of_ne he []
    cases hf : g.bounds.find? p.text with
    | some closer =>
      by_cases hself : closer = p.text
      · subst hself
        rw [c.step_self he hf]
        refine h.append ?_
        rw [hw]
        exact .self hf .empty
      · rw [c.step_open he hf hself]
        exact .begun h he hf hself .empty
    | none =>
      have hk := (StringMap.contains_eq_false_iff _ _).2 hf
      cases ha : c.awaits p.text with
      | true =>
        obtain ⟨o, before, around, hc, ho⟩ := Cursor.awaits_iff.1 ha
        rw [c.step_close he hf ha]
        obtain ⟨here, around'⟩ := c
        obtain rfl : around' = (o, before) :: around := hc
        exact h.close ho.symm he hk
      | false =>
        have hv : p.text ∉ g.bounds.values := by simpa [Cursor.strays, he, hk, ha] using hs
        rw [c.step_plain he hf ha]
        refine h.append ?_
        rw [hw]
        exact .plain hk hv .empty

theorem LeavesOpen.foldlM {g : Grouping} {c c' : Cursor} (h : LeavesOpen g.bounds ps c.openings)
    (hrun : qs.foldlM (Cursor.strictStep g) c = .ok c') : LeavesOpen g.bounds (ps ++ qs) c'.openings := by
  induction qs generalizing ps c with
  | nil =>
    obtain rfl := Except.ok.inj hrun
    rwa [List.append_nil]
  | cons q qs ih =>
    rw [List.foldlM_cons, Cursor.strictStep] at hrun
    split_ifs at hrun with hs
    · cases hrun
    · rw [List.append_cons]
      exact ih (h.step (Bool.eq_false_iff.2 hs)) hrun

/-- Strict grouping that gets through stands in the groups that are left open. -/
theorem leavesOpen_of_foldlM {g : Grouping} {c : Cursor} (hrun : ps.foldlM (Cursor.strictStep g) {} = .ok c) :
    LeavesOpen g.bounds ps c.openings := by
  have hnone : LeavesOpen g.bounds [] (Cursor.openings {}) := .word .empty
  exact hnone.foldlM hrun

theorem LeavesOpen.exists_piece (h : LeavesOpen bounds ps os) (ho : o ∈ os) :
    ∃ p ∈ ps, p.text = o.token ∧ p.offset = o.offset ∧ bounds.find? p.text = some o.closer := by
  induction h with
  | word _ => cases ho
  | @begun ps u p os closer _ _ hf _ _ ih =>
    rcases List.mem_cons.1 ho with rfl | ho
    · exact ⟨p, by simp, rfl, rfl, hf⟩
    · obtain ⟨q, hq, hrest⟩ := ih ho
      exact ⟨q, List.mem_append_left _ hq, hrest⟩

/-! The groups that are left open have no end. -/

theorem endsIn_iff {closer : String} : EndsIn bounds closer ps ↔
    ∃ u q v, ps = u ++ q :: v ∧ q.text = closer ∧ Balanced bounds (words u) := by
  constructor
  · rintro ⟨n, hn, hq, hu⟩
    rw [List.getElem?_eq_getElem hn] at hq
    refine ⟨ps.take n, ps[n], ps.drop (n + 1), ?_, Option.some.inj hq, hu⟩
    rw [← List.drop_eq_getElem_cons hn, List.take_append_drop]
  · rintro ⟨u, q, v, rfl, hq, hu⟩
    refine ⟨u.length, by simp, ?_, ?_⟩
    · simp [hq]
    · rwa [List.take_left]

/-- No token is empty, and no closing token opens a group. -/
structure Tidy (bounds : StringMap String) : Prop where
  find?_empty : bounds.find? "" = none
  ne_empty : ∀ k ∈ bounds.values, k ≠ ""
  find?_closer : ∀ k ∈ bounds.values, bounds.find? k = none

/-- No group that waits when the pieces begin ends among them. -/
def EndsNone (bounds : StringMap String) (ps : List Piece) : Prop := ∀ k ∈ bounds.values, ¬ EndsIn bounds k ps

theorem endsNone_nil : EndsNone bounds [] := by
  rintro k - ⟨n, hn, -⟩
  exact Nat.not_lt_zero n hn

/-- The group that the first token of a word opens ends in the word. -/
theorem Balanced.after_open {t c : String} {w : List String} (h : Balanced bounds (t :: w))
    (hf : bounds.find? t = some c) (hne : c ≠ t) :
    ∃ a b, w = a ++ c :: b ∧ Balanced bounds a ∧ Balanced bounds b := by
  cases h with
  | plain hk _ _ =>
    rw [StringMap.contains_of_find? hf] at hk
    cases hk
  | self hs _ => exact absurd (Option.some.inj (hf.symm.trans hs)) hne
  | @pair _ c' a b ho _ _ ha hb =>
    obtain rfl := Option.some.inj (hf.symm.trans ho)
    exact ⟨a, b, rfl, ha, hb⟩

theorem not_balanced_closer {k : String} {w : List String} (hk : bounds.find? k = none) (hv : k ∈ bounds.values) :
    ¬ Balanced bounds (k :: w) := by
  intro h
  cases h with
  | plain _ hn _ => exact hn hv
  | self hf _ =>
    rw [hk] at hf
    cases hf
  | pair hf _ _ _ _ =>
    rw [hk] at hf
    cases hf

theorem EndsNone.word_append (ht : Tidy bounds) (hu : Balanced bounds (words u)) (h : EndsNone bounds v) :
    EndsNone bounds (u ++ v) := by
  intro k hk hends
  obtain ⟨a, q, b, he, hq, ha⟩ := endsIn_iff.1 hends
  rcases List.append_eq_append_iff.1 he with ⟨a', rfl, hv⟩ | ⟨u', rfl, hb⟩
  · -- the end would be behind the word
    rw [words_append] at ha
    exact h k hk (endsIn_iff.2 ⟨a', q, b, hv, hq, hu.append_iff.1 ha⟩)
  · cases u' with
    | nil => exact h k hk (endsIn_iff.2 ⟨[], q, b, hb.symm, hq, .empty⟩)
    | cons q' u' =>
      -- the end would be in the word, but no word goes on with a closing token
      obtain ⟨rfl, -⟩ := List.cons.inj hb
      rw [words_append] at hu
      have hrest := ha.append_iff.1 hu
      have hne : q.text ≠ "" := hq ▸ ht.ne_empty k hk
      rw [words_cons_of_ne hne, hq] at hrest
      exact not_balanced_closer (ht.find?_closer k hk) hk hrest

theorem EndsNone.cons_open {closer : String} (ht : Tidy bounds) (hne : p.text ≠ "")
    (hf : bounds.find? p.text = some closer) (hself : closer ≠ p.text) (h : EndsNone bounds v) :
    EndsNone bounds (p :: v) := by
  intro k hk hends
  obtain ⟨a, q, b, he, hq, ha⟩ := endsIn_iff.1 hends
  cases a with
  | nil =>
    obtain ⟨rfl, -⟩ := List.cons.inj he
    rw [hq, ht.find?_closer k hk] at hf
    cases hf
  | cons q' a =>
    obtain ⟨rfl, hv⟩ := List.cons.inj he
    rw [words_cons_of_ne hne] at ha
    -- the group that `p` opens would end before
    obtain ⟨x, y, hxy, hx, -⟩ := ha.after_open hf hself
    obtain ⟨x', r, y', rfl, hr, rfl, -⟩ := exists_piece_of_words hxy
    refine h closer (StringMap.mem_values_of_find? hf) (endsIn_iff.2 ⟨x', r, y' ++ q :: b, ?_, hr, hx⟩)
    exact hv.trans (List.append_assoc ..)

/-! What `leftOpen` makes of the first piece. -/

theorem leftOpen_cons_of_none (hf : bounds.find? p.text = none) : leftOpen bounds (p :: ps) = leftOpen bounds ps := by
  rw [leftOpen, hf]

theorem leftOpen_cons_of_ended {closer : String} (hf : bounds.find? p.text = some closer)
    (h : closer = p.text ∨ EndsIn bounds closer ps) : leftOpen bounds (p :: ps) = leftOpen bounds ps := by
  rw [leftOpen, hf]
  exact if_pos h

theorem leftOpen_cons_of_open {closer : String} (hf : bounds.find? p.text = some closer)
    (hself : closer ≠ p.text) (h : ¬ EndsIn bounds closer ps) :
    leftOpen bounds (p :: ps) = ⟨p.text, p.offset, closer⟩ :: leftOpen bounds ps := by
  rw [leftOpen, hf]
  exact if_neg (not_or.2 ⟨hself, h⟩)

theorem leftOpen_blank_append (ht : Tidy bounds) (hu : words u = []) (v : List Piece) :
    leftOpen bounds (u ++ v) = leftOpen bounds v := by
  induction u with
  | nil => rfl
  | cons p u ih =>
    by_cases he : p.text = ""
    · rw [words_cons_of_eq he] at hu
      rw [List.cons_append, leftOpen_cons_of_none (he ▸ ht.find?_empty)]
      exact ih hu
    · rw [words_cons_of_ne he] at hu
      cases hu

/-- A word leaves nothing open. There may be empty pieces between its tokens, so the induction is on the word. -/
theorem leftOpen_word_append (ht : Tidy bounds) {w : List String} (h : Balanced bounds w) (hu : words u = w)
    (v : List Piece) : leftOpen bounds (u ++ v) = leftOpen bounds v := by
  induction h generalizing u v with
  | empty => exact leftOpen_blank_append ht hu v
  | plain hk _ _ ih =>
    obtain ⟨u, q, u', rfl, rfl, hblank, hu'⟩ := exists_piece_of_words (a := []) hu
    rw [List.append_assoc, leftOpen_blank_append ht hblank, List.cons_append,
      leftOpen_cons_of_none ((StringMap.contains_eq_false_iff _ _).1 hk)]
    exact ih hu' v
  | self hf _ ih =>
    obtain ⟨u, q, u', rfl, rfl, hblank, hu'⟩ := exists_piece_of_words (a := []) hu
    rw [List.append_assoc, leftOpen_blank_append ht hblank, List.cons_append, leftOpen_cons_of_ended hf (.inl rfl)]
    exact ih hu' v
  | pair hf _ hc ha _ iha ihb =>
    obtain ⟨u, q, u', rfl, rfl, hblank, hu'⟩ := exists_piece_of_words (a := []) hu
    obtain ⟨a, r, b, rfl, rfl, rfl, hb⟩ := exists_piece_of_words hu'
    rw [List.append_assoc, leftOpen_blank_append ht hblank, List.cons_append, List.append_assoc, List.cons_append,
      leftOpen_cons_of_ended hf (.inr (endsIn_iff.2 ⟨a, r, b ++ v, rfl, rfl, ha⟩)), iha rfl,
      leftOpen_cons_of_none ((StringMap.contains_eq_false_iff _ _).1 hc)]
    exact ihb hb v

theorem LeavesOpen.leftOpen_append (h : LeavesOpen bounds ps os) (ht : Tidy bounds) (hv : EndsNone bounds v) :
    leftOpen bounds (ps ++ v) = os.reverse ++ leftOpen bounds v := by
  induction h generalizing v with
  | word hu => exact leftOpen_word_append ht hu rfl v
  | @begun ps u p os closer _ hne hf hself hu ih =>
    have huv := hv.word_append ht hu
    have hclosed : ¬ EndsIn bounds closer (u ++ v) := huv closer (StringMap.mem_values_of_find? hf)
    rw [List.append_assoc, List.cons_append, ih (huv.cons_open ht hne hf hself),
      leftOpen_cons_of_open hf hself hclosed, leftOpen_word_append ht hu rfl, List.reverse_cons, List.append_assoc]
    rfl

theorem LeavesOpen.leftOpen_eq (h : LeavesOpen bounds ps os) (ht : Tidy bounds) :
    leftOpen bounds ps = os.reverse := by
  have heq := h.leftOpen_append ht endsNone_nil
  rwa [List.append_nil, leftOpen, List.append_nil] at heq

end

/-- Two groups that do not end, and one that does between them. -/
example : (leftOpen (.ofList [("(", ")"), ("[", "]")])
    [⟨true, "(", 0⟩, ⟨true, "[", 1⟩, ⟨true, "]", 2⟩, ⟨true, "(", 3⟩]).map (·.offset) = [0, 3] := by decide +kernel

end BracketTree.Grouping
