import BracketTree.Proofs.Simulation

/-! Strict grouping accepts a bracket language. A word of it is put together from plain tokens, from tokens that
close the group they open, and from pairs around words; a token that opens a group only another opening token
could close stands in no word. When strict grouping waits for closing tokens, it gets through a text just if the
text is a word, then the innermost closing token, then a word again, and so on. -/

namespace BracketTree.Grouping

def words (ps : List Piece) : List String := (ps.map (·.text)).filter (· ≠ "")

theorem words_cons_of_eq {p : Piece} (h : p.text = "") (ps : List Piece) : words (p :: ps) = words ps := by
  simp [words, h]

theorem words_cons_of_ne {p : Piece} (h : p.text ≠ "") (ps : List Piece) :
    words (p :: ps) = p.text :: words ps := by
  simp [words, h]

/-- The bracket language of pairs. -/
inductive Balanced (bounds : StringMap String) : List String → Prop
  | empty : Balanced bounds []
  | plain {p : String} {w : List String} :
      bounds.contains p = false → p ∉ bounds.values → Balanced bounds w → Balanced bounds (p :: w)
  | self {s : String} {w : List String} :
      bounds.find? s = some s → Balanced bounds w → Balanced bounds (s :: w)
  | pair {o c : String} {u v : List String} :
      bounds.find? o = some c → c ≠ o → bounds.contains c = false → Balanced bounds u → Balanced bounds v →
      Balanced bounds (o :: (u ++ c :: v))

/-- Words with the closing tokens `ks` between them, innermost first. -/
def Closes (bounds : StringMap String) : List String → List String → Prop
  | [], w => Balanced bounds w
  | k :: ks, w => ∃ u v, w = u ++ k :: v ∧ Balanced bounds u ∧ bounds.contains k = false ∧ Closes bounds ks v

/-- Whether strict grouping gets through a text when `ks` are due, and nothing is due at the end. -/
def accepts (bounds : StringMap String) : List String → List String → Bool
  | ks, [] => ks.isEmpty
  | ks, t :: w =>
    (bounds.contains t || !bounds.values.contains t || ks.head? == some t) && accepts bounds (due bounds ks t) w

section
variable {bounds : StringMap String} {ks : List String} {t c : String} {u v w : List String}

theorem accepts_self (hf : bounds.find? t = some t) : accepts bounds ks (t :: w) = accepts bounds ks w := by
  rw [accepts, StringMap.contains_of_find? hf, due_self hf]; rfl

theorem accepts_open (hf : bounds.find? t = some c) (hne : c ≠ t) :
    accepts bounds ks (t :: w) = accepts bounds (c :: ks) w := by
  rw [accepts, StringMap.contains_of_find? hf, due_open hf hne]; rfl

theorem accepts_close (hf : bounds.find? t = none) :
    accepts bounds (t :: ks) (t :: w) = accepts bounds ks w := by
  rw [accepts, due_close hf]; simp

theorem accepts_plain (hf : bounds.find? t = none) (hd : ks.head? ≠ some t) :
    accepts bounds ks (t :: w) = (!bounds.values.contains t && accepts bounds ks w) := by
  rw [accepts, due_plain hf hd, (StringMap.contains_eq_false_iff _ _).2 hf, beq_eq_false_iff_ne.2 hd,
    Bool.false_or, Bool.or_false]

theorem Closes.append_left (hx : ∀ w, Balanced bounds w → Balanced bounds (u ++ w))
    (h : Closes bounds ks w) : Closes bounds ks (u ++ w) := by
  cases ks with
  | nil => exact hx w h
  | cons k ks =>
    obtain ⟨a, b, rfl, ha, hk, hb⟩ := h
    exact ⟨u ++ a, b, (List.append_assoc ..).symm, hx a ha, hk, hb⟩

theorem closes_of_accepts (h : accepts bounds ks w = true) : Closes bounds ks w := by
  induction w generalizing ks with
  | nil =>
    rw [accepts, List.isEmpty_iff] at h
    subst h
    exact .empty
  | cons t w ih =>
    cases hf : bounds.find? t with
    | some c =>
      by_cases hne : c = t
      · subst hne
        rw [accepts_self hf] at h
        exact (ih h).append_left (u := [c]) fun _ hw => .self hf hw
      · rw [accepts_open hf hne] at h
        obtain ⟨a, b, rfl, ha, hc, hb⟩ := ih h
        have hp := hb.append_left (u := t :: a ++ [c]) fun x hx => by
          simpa using Balanced.pair hf hne hc ha hx
        simpa using hp
    | none =>
      by_cases hd : ks.head? = some t
      · obtain ⟨ks, rfl⟩ := List.head?_eq_some_iff.1 hd
        rw [accepts_close hf] at h
        exact ⟨[], w, rfl, .empty, (StringMap.contains_eq_false_iff _ _).2 hf, ih h⟩
      · rw [accepts_plain hf hd, Bool.and_eq_true, Bool.not_eq_true', List.contains_eq_mem,
          decide_eq_false_iff_not] at h
        exact (ih h.2).append_left (u := [t]) fun _ hw =>
          .plain ((StringMap.contains_eq_false_iff _ _).2 hf) h.1 hw

/-- A word in front changes nothing. What is due are closing tokens, so a plain token is never due. -/
theorem Balanced.accepts_append (hu : Balanced bounds u) (hks : ∀ k ∈ ks, k ∈ bounds.values) (v : List String) :
    accepts bounds ks (u ++ v) = accepts bounds ks v := by
  induction hu generalizing ks v with
  | empty => rfl
  | @plain p w hk hv _ ih =>
    have hd : ks.head? ≠ some p := fun hd => hv (hks p (List.mem_of_mem_head? hd))
    rw [List.cons_append, accepts_plain ((StringMap.contains_eq_false_iff _ _).1 hk) hd, ih hks]
    simp [hv]
  | self hf _ ih =>
    rw [List.cons_append, accepts_self hf]
    exact ih hks v
  | @pair o c a b hf hne hc _ _ iha ihb =>
    have hcv : ∀ k ∈ c :: ks, k ∈ bounds.values := by
      intro k hk
      rcases List.mem_cons.1 hk with rfl | hk
      · exact StringMap.mem_values_of_find? hf
      · exact hks k hk
    rw [List.cons_append, accepts_open hf hne, List.append_assoc, List.cons_append, iha hcv,
      accepts_close ((StringMap.contains_eq_false_iff _ _).1 hc)]
    exact ihb hks v

theorem accepts_nil_iff : accepts bounds [] w = true ↔ Balanced bounds w := by
  refine ⟨fun h => closes_of_accepts h, fun h => ?_⟩
  have hw := h.accepts_append (fun _ hk => absurd hk List.not_mem_nil) []
  rw [List.append_nil] at hw
  exact hw

/-- A word in front of another text makes a word of both just if the other is one. -/
theorem Balanced.append_iff (hu : Balanced bounds u) : Balanced bounds (u ++ v) ↔ Balanced bounds v := by
  rw [← accepts_nil_iff, ← accepts_nil_iff, hu.accepts_append fun _ hk => absurd hk List.not_mem_nil]

end

/-- A piece strays when its text is refused by what is due. -/
theorem Cursor.strays_eq (g : Grouping) (c : Cursor) {p : Piece} (h : p.text ≠ "") :
    c.strays g p =
      !(g.bounds.contains p.text || !g.bounds.values.contains p.text || c.closers.head? == some p.text) := by
  have ha : (c.closers.head? == some p.text) = c.awaits p.text := by
    rw [Bool.eq_iff_iff, beq_iff_eq, c.head?_closers]
  rw [strays, ha]
  simp [h]

theorem Cursor.close_ok_iff (c : Cursor) : (∃ t, c.close = .ok t) ↔ c.closers = [] := by
  obtain ⟨here, _ | ⟨l, around⟩⟩ := c <;> simp [close, closers]

theorem strict_ok_iff_accepts (g : Grouping) (c : Cursor) (ps : List Piece) :
    (∃ t, (ps.foldlM (Cursor.strictStep g) c >>= Cursor.close) = .ok t) ↔
      accepts g.bounds c.closers (words ps) = true := by
  induction ps generalizing c with
  | nil => exact (c.close_ok_iff).trans List.isEmpty_iff.symm
  | cons p ps ih =>
    rw [List.foldlM_cons, Cursor.strictStep]
    by_cases h : p.text = ""
    · have hs : c.strays g p = false := by simp [Cursor.strays, h]
      rw [words_cons_of_eq h, hs, c.step_empty h]
      exact ih c
    · rw [words_cons_of_ne h, accepts, ← c.closers_step g p h, c.strays_eq g h]
      cases g.bounds.contains p.text || !g.bounds.values.contains p.text || c.closers.head? == some p.text with
      | true => exact ih (c.step g p)
      | false =>
        constructor
        · rintro ⟨t, ht⟩
          cases ht
        · intro ht
          cases ht

/-- Strict grouping succeeds on the words of the bracket language and on nothing else, and its tree is the one
that lenient grouping gives. -/
theorem groupStrict_ok_iff_balanced (g : Grouping) (ps : List Piece) :
    ((∃ t, g.groupStrict ps = .ok t) ↔ Balanced g.bounds (words ps)) ∧
      ∀ t, g.groupStrict ps = .ok t → g.group ps = t := by
  refine ⟨?_, fun t h => tree_eq_of_groupStrict h⟩
  rw [groupStrict_eq, strict_ok_iff_accepts]
  exact accepts_nil_iff

theorem groupStrict_ok_iff_balanced_nested :
    let g : Grouping := ⟨.ofList [("(", ")"), ("|", "|")], [" "]⟩
    let ps : List Piece := [⟨true, "(", 0⟩, ⟨true, "|", 1⟩, ⟨true, " ", 2⟩, ⟨false, "a", 3⟩, ⟨true, ")", 4⟩]
    let t : Tree := [.group [.leaf "(", .group [.leaf "|"], .leaf "a", .leaf ")"]]
    g.groupStrict ps = .ok t ∧ Balanced g.bounds (words ps) ∧ g.group ps = t := by
  intro g ps t
  have h : g.groupStrict ps = .ok t := by decide
  exact ⟨h, (groupStrict_ok_iff_balanced g ps).1.1 ⟨t, h⟩, (groupStrict_ok_iff_balanced g ps).2 t h⟩

end BracketTree.Grouping
