import BracketTree.Vocabulary
import Mathlib.Data.List.Sort
import Mathlib.Tactic.SplitIfs

/-! A vocabulary holds each token that is not empty once, in the order in which they are tried. Longer tokens are
tried first, so the first token with which a text begins is the longest one. -/

namespace BracketTree.Vocabulary

theorem precedes_iff {a b : String} :
    precedes a b = true ↔ b.length < a.length ∨ a.length = b.length ∧ b < a := by
  simp [precedes]

theorem precedes_trans {a b c : String} (hab : precedes a b = true) (hbc : precedes b c = true) :
    precedes a c = true := by
  rw [precedes_iff] at *
  rcases hab with hab | ⟨hab, hab'⟩
  · rcases hbc with hbc | ⟨hbc, -⟩
    · exact .inl (Nat.lt_trans hbc hab)
    · exact .inl (hbc ▸ hab)
  · rcases hbc with hbc | ⟨hbc, hbc'⟩
    · exact .inl (hab ▸ hbc)
    · exact .inr ⟨hab.trans hbc, String.lt_trans hbc' hab'⟩

theorem precedes_of_not_precedes {a b : String} (h : ¬ precedes a b = true) (hne : a ≠ b) :
    precedes b a = true := by
  rw [precedes_iff] at *
  rw [not_or, not_and] at h
  rcases Nat.lt_or_ge a.length b.length with hlt | hge
  · exact .inl hlt
  · have hl : a.length = b.length := Nat.le_antisymm (Nat.not_lt.1 h.1) hge
    exact .inr ⟨hl.symm, StringMap.lt_of_not_lt_of_ne (h.2 hl) hne.symm⟩

theorem length_le_of_precedes {a b : String} (h : precedes a b = true) : b.length ≤ a.length := by
  rcases precedes_iff.1 h with h | ⟨h, -⟩
  · exact Nat.le_of_lt h
  · exact Nat.le_of_eq h.symm

theorem mem_place {t u : String} {us : List String} : u ∈ place t us ↔ u = t ∨ u ∈ us := by
  induction us with
  | nil => simp [place]
  | cons v us ih =>
    rw [place]
    split_ifs with hp ht
    · exact List.mem_cons
    · subst ht; simp
    · simp only [List.mem_cons, ih]
      exact or_left_comm

theorem pairwise_place (t : String) {us : List String} (h : us.Pairwise (fun a b => precedes a b = true)) :
    (place t us).Pairwise (fun a b => precedes a b = true) := by
  induction us with
  | nil => exact List.pairwise_singleton _ _
  | cons v us ih =>
    obtain ⟨hv, hus⟩ := List.pairwise_cons.1 h
    rw [place]
    split_ifs with hp ht
    · refine List.pairwise_cons.2 ⟨fun u hu => ?_, h⟩
      rcases List.mem_cons.1 hu with rfl | hu
      · exact hp
      · exact precedes_trans hp (hv u hu)
    · exact h
    · refine List.pairwise_cons.2 ⟨fun u hu => ?_, ih hus⟩
      rcases mem_place.1 hu with rfl | hu
      · exact precedes_of_not_precedes hp ht
      · exact hv u hu

theorem mem_tokens_ofTokens {ts : List String} {t : String} : t ∈ (ofTokens ts).tokens ↔ t ∈ ts ∧ t ≠ "" := by
  have h : ∀ us : List String, t ∈ us.foldr place [] ↔ t ∈ us := by
    intro us
    induction us with
    | nil => rfl
    | cons u us ih => rw [List.foldr_cons, mem_place, ih, List.mem_cons]
  rw [ofTokens, h, List.mem_filter, decide_eq_true_iff]

theorem pairwise_tokens_ofTokens (ts : List String) :
    (ofTokens ts).tokens.Pairwise (fun a b => precedes a b = true) := by
  rw [ofTokens]
  induction ts.filter (· ≠ "") with
  | nil => exact .nil
  | cons u us ih => exact pairwise_place u ih

theorem not_precedes_self (a : String) : ¬ precedes a a = true := by
  rw [precedes_iff]
  rintro (h | ⟨-, h⟩)
  · exact Nat.lt_irrefl _ h
  · exact String.lt_irrefl _ h

/-- The order leaves no choice, so it matters only which tokens there are. -/
theorem ofTokens_congr {ts us : List String} (h : ∀ t, t ≠ "" → (t ∈ ts ↔ t ∈ us)) :
    ofTokens ts = ofTokens us := by
  have hmem : ∀ t, t ∈ (ofTokens ts).tokens ↔ t ∈ (ofTokens us).tokens := by
    intro t
    rw [mem_tokens_ofTokens, mem_tokens_ofTokens]
    constructor
    · rintro ⟨ht, hne⟩
      exact ⟨(h t hne).1 ht, hne⟩
    · rintro ⟨ht, hne⟩
      exact ⟨(h t hne).2 ht, hne⟩
  have hirr : Std.Irrefl fun a b => precedes a b = true := ⟨not_precedes_self⟩
  have hanti : Std.Antisymm fun a b => precedes a b = true :=
    ⟨fun a b hab hba => absurd (precedes_trans hab hba) (not_precedes_self a)⟩
  have heq := (pairwise_tokens_ofTokens ts).eq_of_mem_iff (pairwise_tokens_ofTokens us) hmem
  exact congrArg Vocabulary.mk heq

/-! The token at a place. -/

/-- A token of the list, not empty, with which the rest `cs` of a text begins. -/
def Begins (ts : List String) (cs : List Char) (t : String) : Prop := t ∈ ts ∧ t ≠ "" ∧ t.toList <+: cs

/-- The longest token with which the rest of a text begins. -/
structure LongestAt (ts : List String) (cs : List Char) (t : String) : Prop where
  begins : Begins ts cs t
  length_le : ∀ u, Begins ts cs u → u.length ≤ t.length

section
variable {ts : List String} {cs : List Char} {t u : String}

theorem LongestAt.unique (ht : LongestAt ts cs t) (hu : LongestAt ts cs u) : t = u := by
  have hl : t.toList.length = u.toList.length := by
    rw [String.length_toList, String.length_toList]
    exact Nat.le_antisymm (hu.length_le t ht.begins) (ht.length_le u hu.begins)
  have hp := List.prefix_of_prefix_length_le ht.begins.2.2 hu.begins.2.2 (Nat.le_of_eq hl)
  exact String.toList_inj.1 (hp.eq_of_length hl)

/-- What is tried at each place of a text. -/
def spellings (ts : List String) : List (List Char) := (ofTokens ts).tokens.map String.toList

/-- A token matches where a text begins with it. -/
theorem matches_iff (ht : t ∈ (ofTokens ts).tokens) :
    (!t.toList.isEmpty && t.toList.isPrefixOf cs) = true ↔ Begins ts cs t := by
  obtain ⟨hm, hne⟩ := mem_tokens_ofTokens.1 ht
  have hl : t.toList ≠ [] := fun h => hne (String.toList_eq_nil_iff.1 h)
  simp [Begins, hm, hne, hl]

theorem spellingAt?_spellings_eq_none_iff :
    spellingAt? (spellings ts) cs = none ↔ ∀ t, ¬ Begins ts cs t := by
  rw [spellingAt?, spellings, List.find?_map, Option.map_eq_none_iff, List.find?_eq_none]
  refine ⟨fun h t ht => ?_, fun h t ht hb => h t ((matches_iff ht).1 hb)⟩
  have hm := mem_tokens_ofTokens.2 ⟨ht.1, ht.2.1⟩
  exact h t hm ((matches_iff hm).2 ht)

/-- The tokens before the first that matches do not match, and those behind it are no longer. -/
theorem spellingAt?_spellings_eq_some {w : List Char} (h : spellingAt? (spellings ts) cs = some w) :
    ∃ t, w = t.toList ∧ LongestAt ts cs t := by
  rw [spellingAt?, spellings, List.find?_map] at h
  obtain ⟨t, hf, rfl⟩ := Option.map_eq_some_iff.1 h
  obtain ⟨hb, as, bs, hts, has⟩ := List.find?_eq_some_iff_append.1 hf
  have hp := pairwise_tokens_ofTokens ts
  have hmem : ∀ u, u ∈ as ++ t :: bs ↔ u ∈ (ofTokens ts).tokens := fun u => by rw [hts]
  refine ⟨t, rfl, (matches_iff ((hmem t).1 (by simp))).1 hb, fun u hu => ?_⟩
  have hu' := mem_tokens_ofTokens.2 ⟨hu.1, hu.2.1⟩
  rcases List.mem_append.1 ((hmem u).2 hu') with hm | hm
  · have hn := has u hm
    rw [Function.comp_apply, (matches_iff hu').2 hu] at hn
    cases hn
  · rw [hts] at hp
    rcases List.mem_cons.1 hm with rfl | hm
    · exact Nat.le_refl _
    · exact length_le_of_precedes ((List.pairwise_cons.1 (List.pairwise_append.1 hp).2.1).1 u hm)

end
end BracketTree.Vocabulary
