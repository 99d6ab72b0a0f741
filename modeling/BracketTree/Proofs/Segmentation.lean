import BracketTree.Proofs.VocabularyOrder

/-! The pieces of a text are its one segmentation at the tokens of a vocabulary. Content and tokens alternate,
content at both ends; no token begins inside content, not even one that reaches beyond it; and each token is the
longest one that begins at its place. Nothing else has these properties, so the split is determined by them. -/

namespace BracketTree.Vocabulary

def chars (ps : List Piece) : List Char := ps.flatMap (·.text.toList)

/-- Pieces that begin `start` bytes into a text and reach to its end. -/
structure Segmentation (ts : List String) (start : Nat) (ps : List Piece) : Prop where
  odd : ps.length % 2 = 1
  alternates : ∀ before p after, ps = before ++ p :: after → (p.isToken = true ↔ before.length % 2 = 1)
  offset_eq : ∀ before p after, ps = before ++ p :: after →
    p.offset = start + (String.join (before.map (·.text))).utf8ByteSize
  /-- No token begins inside a content piece: with the characters `v` of the piece still to come, and then those
  of the pieces behind it. -/
  content_free : ∀ before p after, ps = before ++ p :: after → p.isToken = false →
    ∀ u v, p.text.toList = u ++ v → v ≠ [] → ∀ t, ¬ Begins ts (v ++ chars after) t
  token_longest : ∀ before p after, ps = before ++ p :: after → p.isToken = true →
    LongestAt ts (chars (p :: after)) p.text

/-- No token begins in the first of two parts of a text, whether or not it reaches into the second. -/
def Free (ts : List String) (content rest : List Char) : Prop :=
  ∀ u v, content = u ++ v → v ≠ [] → ∀ t, ¬ Begins ts (v ++ rest) t

/-- Segmentations of the characters `cs` from byte `start` on, content and token by content and token. -/
inductive Segmented (ts : List String) : Nat → List Char → List Piece → Prop
  | last {start : Nat} {content : List Char} :
      Free ts content [] → Segmented ts start content [⟨false, String.ofList content, start⟩]
  | token {start : Nat} {content rest : List Char} {t : String} {ps : List Piece} :
      Free ts content (t.toList ++ rest) → LongestAt ts (t.toList ++ rest) t →
      Segmented ts (start + byteLength content + byteLength t.toList) rest ps →
      Segmented ts start (content ++ (t.toList ++ rest))
        (⟨false, String.ofList content, start⟩ :: ⟨true, t, start + byteLength content⟩ :: ps)

theorem byteLength_cons (c : Char) (cs : List Char) : byteLength (c :: cs) = c.utf8Size + byteLength cs := rfl

theorem utf8ByteSize_ofList (cs : List Char) : (String.ofList cs).utf8ByteSize = byteLength cs := by
  induction cs with
  | nil => rfl
  | cons c cs ih =>
    rw [← List.singleton_append, String.ofList_append, String.utf8ByteSize_append, ih,
      ← String.singleton_eq_ofList, String.utf8ByteSize_singleton]
    rfl

theorem byteLength_toList (s : String) : byteLength s.toList = s.utf8ByteSize := by
  rw [← utf8ByteSize_ofList, String.ofList_toList]

theorem eq_piece {q : Piece} {k : Bool} {o : Nat} (hk : q.isToken = k) (ho : q.offset = o) :
    q = ⟨k, q.text, o⟩ := by
  subst hk ho; rfl

theorem cons_cons_eq_append_cons {α : Type} {x y p : α} {ps before after : List α}
    (h : x :: y :: ps = before ++ p :: after) :
    (before = [] ∧ p = x ∧ after = y :: ps) ∨ (before = [x] ∧ p = y ∧ after = ps) ∨
      ∃ b, before = x :: y :: b ∧ ps = b ++ p :: after := by
  rcases before with _ | ⟨a, _ | ⟨b, before⟩⟩
  · obtain ⟨hx, hps⟩ := List.cons.inj h
    exact .inl ⟨rfl, hx.symm, hps.symm⟩
  · obtain ⟨hx, hps⟩ := List.cons.inj h
    obtain ⟨hy, hps⟩ := List.cons.inj hps
    exact .inr (.inl ⟨by rw [hx], hy.symm, hps.symm⟩)
  · obtain ⟨hx, hps⟩ := List.cons.inj h
    obtain ⟨hy, hps⟩ := List.cons.inj hps
    exact .inr (.inr ⟨before, by rw [hx, hy], hps⟩)

/-! The two forms of a segmentation are the same. -/

section
variable {ts : List String} {start : Nat} {p q : Piece} {ps : List Piece} {cs : List Char}

/-- A segmentation without its first content and token is one of what is behind them. -/
theorem Segmentation.tail (h : Segmentation ts start (p :: q :: ps)) :
    Segmentation ts (start + p.text.utf8ByteSize + q.text.utf8ByteSize) ps where
  odd := by have hodd := h.odd; simp only [List.length_cons] at hodd; omega
  alternates before r after he := by
    have ha := h.alternates (p :: q :: before) r after (by rw [he]; rfl)
    rw [ha]; simp only [List.length_cons]; omega
  offset_eq before r after he := by
    have ho := h.offset_eq (p :: q :: before) r after (by rw [he]; rfl)
    rw [ho]; simp only [List.map_cons, String.join_cons, String.utf8ByteSize_append]; omega
  content_free before r after he := h.content_free (p :: q :: before) r after (by rw [he]; rfl)
  token_longest before r after he := h.token_longest (p :: q :: before) r after (by rw [he]; rfl)

theorem Segmentation.head (h : Segmentation ts start (p :: ps)) :
    p = ⟨false, p.text, start⟩ ∧ Free ts p.text.toList (chars ps) := by
  have hk : p.isToken = false := by
    rw [Bool.eq_false_iff]
    exact fun ht => absurd ((h.alternates [] p ps rfl).1 ht) (by simp)
  have ho : p.offset = start := h.offset_eq [] p ps rfl
  exact ⟨eq_piece hk ho, h.content_free [] p ps rfl hk⟩

theorem segmented_of_segmentation (n : Nat) (h : Segmentation ts start ps) (hn : ps.length = 2 * n + 1) :
    Segmented ts start (chars ps) ps := by
  induction n generalizing ps start with
  | zero =>
    obtain ⟨p, rfl⟩ := List.length_eq_one_iff.1 hn
    obtain ⟨hp, hf⟩ := h.head
    have hl : Segmented ts start p.text.toList [⟨false, String.ofList p.text.toList, start⟩] := .last hf
    rw [String.ofList_toList, ← hp] at hl
    simpa [chars] using hl
  | succ n ih =>
    obtain ⟨p, _ | ⟨q, ps⟩, rfl⟩ := List.exists_cons_of_length_pos (l := ps) (by omega)
    · simp at hn
    obtain ⟨hp, hf⟩ := h.head
    have hk : q.isToken = true := (h.alternates [p] q ps rfl).2 rfl
    have ho : q.offset = start + p.text.utf8ByteSize := by simpa using h.offset_eq [p] q ps rfl
    rw [← byteLength_toList] at ho
    have hrest := ih h.tail (by simp only [List.length_cons] at hn; omega)
    rw [← byteLength_toList, ← byteLength_toList] at hrest
    have ht := Segmented.token hf (h.token_longest [p] q ps rfl hk) hrest
    rw [String.ofList_toList, ← hp, ← eq_piece hk ho] at ht
    exact ht

theorem Segmented.chars_eq (h : Segmented ts start cs ps) : chars ps = cs := by
  induction h with
  | last _ => simp [chars]
  | token _ _ _ ih =>
    rw [chars] at ih
    simp [chars, ih]

theorem segmentation_singleton {content : List Char} (hf : Free ts content []) :
    Segmentation ts start [⟨false, String.ofList content, start⟩] := by
  have hone : ∀ before p after, [(⟨false, String.ofList content, start⟩ : Piece)] = before ++ p :: after →
      before = [] ∧ ⟨false, String.ofList content, start⟩ = p ∧ after = [] := by
    intro before p after he
    rcases before with _ | ⟨x, before⟩
    · exact ⟨rfl, (List.cons.inj he).1, (List.cons.inj he).2.symm⟩
    · simp at he
  constructor
  · rfl
  · intro before p after he
    obtain ⟨rfl, rfl, rfl⟩ := hone before p after he
    simp
  · intro before p after he
    obtain ⟨rfl, rfl, rfl⟩ := hone before p after he
    rfl
  · intro before p after he _
    obtain ⟨rfl, rfl, rfl⟩ := hone before p after he
    rwa [String.toList_ofList]
  · intro before p after he hk
    obtain ⟨rfl, rfl, rfl⟩ := hone before p after he
    cases hk

theorem Segmentation.cons {content : List Char} {t : String} (hf : Free ts content (t.toList ++ chars ps))
    (ht : LongestAt ts (t.toList ++ chars ps) t)
    (h : Segmentation ts (start + byteLength content + byteLength t.toList) ps) :
    Segmentation ts start
      (⟨false, String.ofList content, start⟩ :: ⟨true, t, start + byteLength content⟩ :: ps) := by
  constructor
  · have hodd := h.odd
    simp only [List.length_cons]; omega
  · intro before p after he
    rcases cons_cons_eq_append_cons he with ⟨rfl, rfl, rfl⟩ | ⟨rfl, rfl, rfl⟩ | ⟨b, rfl, hb⟩
    · simp
    · simp
    · rw [h.alternates b p after hb]; simp only [List.length_cons]; omega
  · intro before p after he
    rcases cons_cons_eq_append_cons he with ⟨rfl, rfl, rfl⟩ | ⟨rfl, rfl, rfl⟩ | ⟨b, rfl, hb⟩
    · rfl
    · simp [utf8ByteSize_ofList]
    · rw [h.offset_eq b p after hb]
      simp only [List.map_cons, String.join_cons, String.utf8ByteSize_append, utf8ByteSize_ofList,
        byteLength_toList]
      omega
  · intro before p after he hk
    rcases cons_cons_eq_append_cons he with ⟨rfl, rfl, rfl⟩ | ⟨rfl, rfl, rfl⟩ | ⟨b, rfl, hb⟩
    · rwa [String.toList_ofList]
    · cases hk
    · exact h.content_free b p after hb hk
  · intro before p after he hk
    rcases cons_cons_eq_append_cons he with ⟨rfl, rfl, rfl⟩ | ⟨rfl, rfl, rfl⟩ | ⟨b, rfl, hb⟩
    · cases hk
    · exact ht
    · exact h.token_longest b p after hb hk

theorem Segmented.segmentation (h : Segmented ts start cs ps) : Segmentation ts start ps := by
  induction h with
  | last hf => exact segmentation_singleton hf
  | token hf ht h ih =>
    rw [← h.chars_eq] at hf ht
    exact ih.cons hf ht

theorem segmented_iff : Segmented ts start cs ps ↔ chars ps = cs ∧ Segmentation ts start ps := by
  refine ⟨fun h => ⟨h.chars_eq, h.segmentation⟩, ?_⟩
  rintro ⟨rfl, h⟩
  have hodd := h.odd
  exact segmented_of_segmentation (ps.length / 2) h (by omega)

end

/-! The split is a segmentation, and the only one. -/

section
variable {ts : List String} {start : Nat} {ps : List Piece} {cs : List Char}

theorem Free.cons {c : Char} {content rest : List Char} (h : Free ts content rest)
    (hc : ∀ t, ¬ Begins ts (c :: (content ++ rest)) t) : Free ts (c :: content) rest := by
  intro u v he hv t
  rcases u with _ | ⟨d, u⟩
  · subst he
    exact hc t
  · exact h u v (List.cons.inj he).2 hv t

theorem Free.nil (rest : List Char) : Free ts [] rest := by
  intro u v he hv
  exact absurd (List.append_eq_nil_iff.1 he.symm).2 hv

/-- The first place at which a token begins, if there is one. -/
theorem first_token (ts : List String) (cs : List Char) : Free ts cs [] ∨
    ∃ content t rest, cs = content ++ (t.toList ++ rest) ∧ Free ts content (t.toList ++ rest) ∧
      LongestAt ts (t.toList ++ rest) t := by
  induction cs with
  | nil => exact .inl (Free.nil [])
  | cons c cs ih =>
    cases hs : spellingAt? (spellings ts) (c :: cs) with
    | some w =>
      obtain ⟨t, -, ht⟩ := spellingAt?_spellings_eq_some hs
      obtain ⟨rest, hrest⟩ := ht.begins.2.2
      rw [← hrest] at ht
      exact .inr ⟨[], t, rest, hrest.symm, Free.nil _, ht⟩
    | none =>
      have hc := spellingAt?_spellings_eq_none_iff.1 hs
      rcases ih with hf | ⟨content, t, rest, rfl, hf, ht⟩
      · exact .inl (hf.cons (by rwa [List.append_nil]))
      · exact .inr ⟨c :: content, t, rest, rfl, hf.cons hc, ht⟩

theorem exists_segmented (ts : List String) (start : Nat) (cs : List Char) : ∃ ps, Segmented ts start cs ps := by
  induction hn : cs.length using Nat.strongRecOn generalizing cs start with
  | ind n ih =>
    rcases first_token ts cs with hf | ⟨content, t, rest, rfl, hf, ht⟩
    · exact ⟨_, .last hf⟩
    · have hpos : 0 < t.toList.length :=
        List.length_pos_iff.2 fun h => ht.begins.2.1 (String.toList_eq_nil_iff.1 h)
      obtain ⟨ps, hps⟩ := ih rest.length (by simp only [List.length_append] at hn; omega)
        (start + byteLength content + byteLength t.toList) rest rfl
      exact ⟨_, .token hf ht hps⟩

/-- Content is collected as long as no token begins. -/
theorem splitFrom_free {acc : List Piece} {content u rest : List Char} {offset : Nat}
    (h : Free ts u rest) :
    splitFrom (spellings ts) acc content start offset (u ++ rest) =
      splitFrom (spellings ts) acc (u.reverse ++ content) start (offset + byteLength u) rest := by
  induction u generalizing content offset with
  | nil => rfl
  | cons c u ih =>
    have hs : spellingAt? (spellings ts) (c :: (u ++ rest)) = none :=
      spellingAt?_spellings_eq_none_iff.2 (h [] (c :: u) rfl (List.cons_ne_nil c u))
    have hf : Free ts u rest := fun a b he hb => h (c :: a) b (by rw [he]; rfl) hb
    rw [List.cons_append, splitFrom]
    split
    · rename_i hsome; rw [hs] at hsome; cases hsome
    · rw [ih hf, byteLength_cons, List.reverse_cons, List.append_assoc, Nat.add_assoc]
      rfl

theorem splitFrom_longest {acc : List Piece} {content rest : List Char} {offset : Nat} {t : String}
    (h : LongestAt ts (t.toList ++ rest) t) :
    splitFrom (spellings ts) acc content start offset (t.toList ++ rest) =
      splitFrom (spellings ts) (⟨true, t, offset⟩ :: ⟨false, String.ofList content.reverse, start⟩ :: acc) []
        (offset + byteLength t.toList) (offset + byteLength t.toList) rest := by
  cases hs : spellingAt? (spellings ts) (t.toList ++ rest) with
  | none => exact absurd h.begins (spellingAt?_spellings_eq_none_iff.1 hs t)
  | some w =>
    obtain ⟨t', rfl, ht'⟩ := spellingAt?_spellings_eq_some hs
    obtain rfl := h.unique ht'
    cases hcs : t.toList ++ rest with
    | nil => exact absurd (String.toList_eq_nil_iff.1 (List.append_eq_nil_iff.1 hcs).1) h.begins.2.1
    | cons c cs =>
      rw [hcs] at hs
      rw [splitFrom]
      split
      · rename_i w hw
        obtain rfl := Option.some.inj (hs.symm.trans hw)
        rw [← hcs, List.drop_left, String.ofList_toList]
      · rename_i hnone; rw [hs] at hnone; cases hnone

theorem Segmented.splitFrom_eq (h : Segmented ts start cs ps) (acc : List Piece) :
    splitFrom (spellings ts) acc [] start start cs = acc.reverse ++ ps := by
  induction h generalizing acc with
  | @last start content hf =>
    have hs : splitFrom (spellings ts) acc [] start start (content ++ []) =
        splitFrom (spellings ts) acc (content.reverse ++ []) start (start + byteLength content) [] :=
      splitFrom_free hf
    rw [List.append_nil, List.append_nil] at hs
    rw [hs, splitFrom]
    simp
  | @token start content rest t ps hf ht _ ih =>
    rw [splitFrom_free hf, splitFrom_longest ht, List.append_nil, List.reverse_reverse, ih]
    simp

theorem split_eq_iff_segmented {text : String} :
    (ofTokens ts).split text = ps ↔ Segmented ts 0 text.toList ps := by
  obtain ⟨qs, hqs⟩ := exists_segmented ts 0 text.toList
  have hsplit : (ofTokens ts).split text = qs := hqs.splitFrom_eq []
  refine ⟨fun h => ?_, fun h => h.splitFrom_eq []⟩
  rw [← h, hsplit]
  exact hqs

theorem join_split (ts : List String) (text : String) :
    String.join (((ofTokens ts).split text).map (·.text)) = text := by
  have h := (split_eq_iff_segmented.1 (Eq.refl ((ofTokens ts).split text))).chars_eq
  apply String.toList_inj.1
  rw [String.toList_join, List.flatMap_map]
  exact h

theorem segmentation_split (ts : List String) (text : String) :
    Segmentation ts 0 ((ofTokens ts).split text) :=
  (split_eq_iff_segmented.1 rfl).segmentation

/-- A token that begins nowhere in content is not inside it. -/
theorem Segmentation.not_inside (h : Segmentation ts start ps) {p : Piece} (hp : p ∈ ps)
    (hk : p.isToken = false) {t : String} (ht : t ∈ ts) (hne : t ≠ "") : ¬ t.toList <:+: p.text.toList := by
  rintro ⟨u, w, he⟩
  obtain ⟨before, after, rfl⟩ := List.append_of_mem hp
  have hv : t.toList ++ w ≠ [] := fun h => hne (String.toList_eq_nil_iff.1 (List.append_eq_nil_iff.1 h).1)
  refine h.content_free before p after rfl hk u (t.toList ++ w) ?_ hv t ⟨ht, hne, ?_⟩
  · rw [← he, List.append_assoc]
  · rw [List.append_assoc]
    exact List.prefix_append _ _

end

/-- The split of a text is its one segmentation, and its content holds no token. -/
theorem split_eq_iff_segmentation (ts : List String) (text : String) :
    (∀ ps, (ofTokens ts).split text = ps ↔ String.join (ps.map (·.text)) = text ∧ Segmentation ts 0 ps) ∧
      ∀ p ∈ (ofTokens ts).split text, p.isToken = false →
        ∀ t ∈ ts, t ≠ "" → ¬ t.toList <:+: p.text.toList := by
  refine ⟨fun ps => ?_, fun p hp hk t ht hne => (segmentation_split ts text).not_inside hp hk ht hne⟩
  rw [split_eq_iff_segmented, segmented_iff, ← String.toList_inj, String.toList_join, List.flatMap_map]
  rfl

end BracketTree.Vocabulary
