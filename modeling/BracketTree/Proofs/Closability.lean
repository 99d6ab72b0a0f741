import BracketTree.Proofs.BracketLanguage
import BracketTree.Proofs.Findings

/-! Which groups can end at all. An opening token stands in some text that strict grouping accepts if it closes its own
group, or if its closing token is not empty and opens no group itself. Every other pair leaves groups open in whatever
text it is used, and there is a finding that says so. -/

namespace BracketTree

namespace Grouping

def Admits (g : Grouping) (ps : List Piece) : Prop := ∃ t, g.groupStrict ps = .ok t

theorem admits_iff_balanced {g : Grouping} {ps : List Piece} : g.Admits ps ↔ Balanced g.bounds (words ps) := by
  rw [Admits, groupStrict_eq, strict_ok_iff_accepts]
  exact accepts_nil_iff

section
variable {bounds : StringMap String} {w : List String} {o c : String}

/-- An opening token in a word closes its own group, or its closing token is in the word too and opens nothing. -/
theorem Balanced.closer_of_mem (h : Balanced bounds w) (ho : o ∈ w) (hf : bounds.find? o = some c) :
    c = o ∨ bounds.contains c = false ∧ c ∈ w := by
  have hk := StringMap.contains_of_find? hf
  induction h with
  | empty => cases ho
  | plain hp _ _ ih =>
    rcases List.mem_cons.1 ho with rfl | ho
    · rw [hk] at hp
      cases hp
    · exact (ih ho).imp_right fun hc => ⟨hc.1, List.mem_cons_of_mem _ hc.2⟩
  | self hs _ ih =>
    rcases List.mem_cons.1 ho with rfl | ho
    · exact .inl (Option.some.inj (hf.symm.trans hs))
    · exact (ih ho).imp_right fun hc => ⟨hc.1, List.mem_cons_of_mem _ hc.2⟩
  | @pair o' c' u v ho' _ hc' _ _ ihu ihv =>
    have hmem : ∀ t, t ∈ o' :: (u ++ c' :: v) ↔ t = o' ∨ t ∈ u ∨ t = c' ∨ t ∈ v := by
      simp
    rw [hmem] at ho ⊢
    rcases ho with rfl | ho | rfl | ho
    · obtain rfl := Option.some.inj (hf.symm.trans ho')
      exact .inr ⟨hc', .inr (.inr (.inl rfl))⟩
    · exact (ihu ho).imp_right fun hc => ⟨hc.1, .inr (.inl hc.2)⟩
    · rw [hk] at hc'
      cases hc'
    · exact (ihv ho).imp_right fun hc => ⟨hc.1, .inr (.inr (.inr hc.2))⟩

end

theorem ne_empty_of_mem_words {ps : List Piece} {t : String} (h : t ∈ words ps) : t ≠ "" := by
  simpa using (List.mem_filter.1 h).2

end Grouping

namespace Rules

/-- Some text with the token in it is accepted by strict grouping. -/
def Closable (r : Rules) (token : String) : Prop :=
  ∃ ps : List Piece, (∃ p ∈ ps, p.text = token) ∧ Grouping.Admits ⟨r.bounds, r.strip⟩ ps

section
variable {r : Rules} {o c : String}

theorem closable_iff (ho : o ≠ "") (hf : r.closerOf? o = some c) :
    r.Closable o ↔ c = o ∨ c ≠ "" ∧ r.isOpener c = false := by
  constructor
  · rintro ⟨ps, ⟨p, hp, rfl⟩, hps⟩
    have hw : p.text ∈ Grouping.words ps :=
      List.mem_filter.2 ⟨List.mem_map_of_mem hp, decide_eq_true ho⟩
    refine ((Grouping.admits_iff_balanced.1 hps).closer_of_mem hw hf).imp_right ?_
    rintro ⟨hk, hc⟩
    exact ⟨Grouping.ne_empty_of_mem_words hc, hk⟩
  · intro h
    by_cases hco : c = o
    · subst hco
      refine ⟨[⟨true, c, 0⟩], ⟨_, List.mem_cons_self, rfl⟩, Grouping.admits_iff_balanced.2 ?_⟩
      rw [Grouping.words_cons_of_ne ho]
      exact .self hf .empty
    · obtain ⟨hc, hk⟩ := h.resolve_left hco
      refine ⟨[⟨true, o, 0⟩, ⟨true, c, 0⟩], ⟨_, List.mem_cons_self, rfl⟩, Grouping.admits_iff_balanced.2 ?_⟩
      rw [Grouping.words_cons_of_ne ho, Grouping.words_cons_of_ne hc]
      exact .pair (u := []) hf hco hk .empty .empty

/-- A closing token that is empty, or opens a group, is found. -/
theorem found_of_closer (hf : r.closerOf? o = some c) (h : c = "" ∨ r.isOpener c = true) :
    .emptyToken ∈ r.issues ∨ .selfClosing c ∈ r.issues ∨ .openAndClose c ∈ r.issues := by
  have hc : c ∈ r.closers := StringMap.mem_values_of_find? hf
  by_cases hempty : c = ""
  · have ht : "" ∈ r.tokens := mem_tokens_iff.2 (.inl (List.mem_append_right _ (hempty ▸ hc)))
    exact .inl (List.mem_of_mem_head? (head?_issues_eq_emptyToken_iff.2 ht))
  · have ho := isOpener_iff.1 (h.resolve_left hempty)
    simp only [mem_issues, occasions]
    by_cases hs : r.closerOf? c = some c
    · exact .inr (.inl (by simp [hempty, hs]))
    · exact .inr (.inr (by simp [hempty, ho, hs, hc]))

/-- Whether an opening token stands in an accepted text is seen from its closing token, and there is a finding about
every opening token that stands in none. -/
theorem closable_iff_and_unclosable_found (ho : o ≠ "") (hf : r.closerOf? o = some c) :
    (r.Closable o ↔ c = o ∨ c ≠ "" ∧ r.isOpener c = false) ∧
      (¬ r.Closable o →
        .emptyToken ∈ r.issues ∨ .selfClosing c ∈ r.issues ∨ .openAndClose c ∈ r.issues) := by
  refine ⟨closable_iff ho hf, ?_⟩
  intro hn
  rw [closable_iff ho hf] at hn
  refine found_of_closer hf ?_
  grind

theorem closable_iff_and_unclosable_found_entangled :
    let r : Rules := { bounds := .ofList [("<", ">"), (">", "<")] }
    r.closerOf? "<" = some ">" ∧ ¬ r.Closable "<" ∧ .openAndClose ">" ∈ r.issues ∧
      (.emptyToken ∈ r.issues ∨ .selfClosing ">" ∈ r.issues ∨ .openAndClose ">" ∈ r.issues) := by
  intro r
  have hf : r.closerOf? "<" = some ">" := by decide
  obtain ⟨hiff, hfound⟩ := closable_iff_and_unclosable_found (o := "<") (by decide) hf
  have hn : ¬ r.Closable "<" := fun h => absurd (hiff.1 h) (by decide)
  exact ⟨hf, hn, by decide +kernel, hfound hn⟩

end
end Rules
end BracketTree
