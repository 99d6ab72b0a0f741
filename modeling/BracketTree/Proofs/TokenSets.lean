import BracketTree.Parser
import BracketTree.Proofs.SideBySide
import BracketTree.Proofs.VocabularyOrder
import Mathlib.Tactic.Tauto

/-! Of the lists in a rule set it matters only which tokens are in them. Where a text is split depends on the set of
all tokens that are not empty, and what is left out of the tree on the set of those that are to be left out. So a
token may be named again, or in several lists, and the lists may be in any order. -/

namespace BracketTree

namespace Grouping
variable {strip strip' : List String}

/-- No step asks whether the empty text is left out. -/
theorem Cursor.follows_strip (bounds : StringMap String) (h : ∀ t, t ≠ "" → (t ∈ strip' ↔ t ∈ strip)) :
    Follows ⟨bounds, strip⟩ ⟨bounds, strip'⟩ id id id id where
  step c p := by
    change c.step ⟨bounds, strip'⟩ p = c.step ⟨bounds, strip⟩ p
    unfold step
    split_ifs with he
    · rfl
    · have hc : strip'.contains p.text = strip.contains p.text := by
        rw [Bool.eq_iff_iff, List.contains_iff_mem, List.contains_iff_mem]
        exact h p.text he
      unfold leafAt
      rw [hc]
      rfl
  strays _ _ := rfl
  blame_stray _ := rfl
  tree _ := rfl
  close c := by
    rw [id_eq]
    cases c.close with
    | error e => rfl
    | ok t => rfl

theorem group_congr (bounds : StringMap String) (h : ∀ t, t ≠ "" → (t ∈ strip' ↔ t ∈ strip)) (ps : List Piece) :
    group ⟨bounds, strip'⟩ ps = group ⟨bounds, strip⟩ ps := by
  have hf := (Cursor.follows_strip bounds h).tree_foldl {} ps
  rw [List.map_id] at hf
  rw [group_eq, group_eq]
  exact hf

theorem groupStrict_congr (bounds : StringMap String) (h : ∀ t, t ≠ "" → (t ∈ strip' ↔ t ∈ strip))
    (ps : List Piece) : groupStrict ⟨bounds, strip'⟩ ps = groupStrict ⟨bounds, strip⟩ ps := by
  have hf := (Cursor.follows_strip bounds h).foldlM {} ps
  rw [List.map_id] at hf
  rw [groupStrict_eq, groupStrict_eq]
  refine hf.trans ?_
  cases ps.foldlM (Cursor.strictStep ⟨bounds, strip⟩) {} >>= Cursor.close with
  | error e => rfl
  | ok t => rfl

end Grouping

namespace Rules

def boundTokens (r : Rules) : List String := r.openers ++ r.closers

theorem mem_tokens_iff {r : Rules} {t : String} :
    t ∈ r.tokens ↔ t ∈ r.boundTokens ∨ t ∈ r.extra ∨ t ∈ r.strip := by
  have hb : t ∈ r.bounds.entries.flatMap (fun e => [e.1, e.2]) ↔ t ∈ r.boundTokens := by
    simp only [boundTokens, openers, closers, StringMap.keys, StringMap.values, List.mem_flatMap, List.mem_cons,
      List.not_mem_nil, or_false, List.mem_append, List.mem_map]
    constructor
    · rintro ⟨e, he, rfl | rfl⟩
      · exact .inl ⟨e, he, rfl⟩
      · exact .inr ⟨e, he, rfl⟩
    · rintro (⟨e, he, rfl⟩ | ⟨e, he, rfl⟩)
      · exact ⟨e, he, .inl rfl⟩
      · exact ⟨e, he, .inr rfl⟩
  rw [tokens, List.mem_append, List.mem_append, hb, or_assoc]

/-- The tokens of `extra` that are named nowhere else, each once. -/
def ownExtra (r : Rules) : List String :=
  (r.extra.filter fun t => t ≠ "" && !r.isOpener t && !r.isCloser t && !r.strip.contains t).eraseDups

def ownStrip (r : Rules) : List String := (r.strip.filter (· ≠ "")).eraseDups

theorem isOpener_iff {r : Rules} {t : String} : r.isOpener t = true ↔ t ∈ r.openers := by
  simp only [isOpener, StringMap.contains, openers, StringMap.keys, List.any_eq_true, beq_iff_eq, List.mem_map]

theorem isCloser_iff {r : Rules} {t : String} : r.isCloser t = true ↔ t ∈ r.closers := List.contains_iff_mem

theorem mem_ownExtra_iff {r : Rules} {t : String} (ht : t ≠ "") :
    t ∈ r.ownExtra ↔ t ∈ r.extra ∧ t ∉ r.boundTokens ∧ t ∉ r.strip := by
  simp only [ownExtra, boundTokens, List.mem_eraseDups, List.mem_filter, Bool.and_eq_true, Bool.not_eq_true',
    Bool.eq_false_iff, ne_eq, isOpener_iff, isCloser_iff, List.contains_iff_mem, List.mem_append, ht,
    not_false_eq_true, decide_true, true_and, not_or, and_assoc]

theorem mem_ownStrip_iff {r : Rules} {t : String} (ht : t ≠ "") : t ∈ r.ownStrip ↔ t ∈ r.strip := by
  simp [ownStrip, ht]

end Rules

namespace Parser

/-- Splitting goes by the tokens that are not empty, wherever they are named. -/
theorem vocabulary_eq (p : Parser) {separators : List String}
    (h : ∀ t, t ≠ "" → (t ∈ p.rules.boundTokens ∨ t ∈ separators ↔ t ∈ p.rules.tokens)) :
    p.vocabulary = .ofBounds p.rules.bounds separators := by
  refine Vocabulary.ofTokens_congr fun t ht => ?_
  have hs := h t ht
  have hb := Rules.mem_tokens_iff (r := ⟨p.rules.bounds, separators, []⟩) (t := t)
  have hp := Rules.mem_tokens_iff (r := ⟨p.rules.bounds, p.rules.separators, []⟩) (t := t)
  simp only [Rules.tokens, List.append_nil, List.not_mem_nil, or_false] at hb hp
  rw [hb, hp]
  rw [Rules.mem_tokens_iff] at hs
  simp only [Rules.separators, List.mem_eraseDups, List.mem_append]
  exact hs.symm

/-- Rules with the same pairs, the same tokens and the same tokens to leave out make the same of every text. -/
theorem parse_congr {r r' : Rules} (hb : r'.bounds = r.bounds)
    (hs : ∀ t, t ≠ "" → (t ∈ r'.strip ↔ t ∈ r.strip)) (ht : ∀ t, t ≠ "" → (t ∈ r'.tokens ↔ t ∈ r.tokens))
    (mode : Mode) (text : String) : parse ⟨r', mode⟩ text = parse ⟨r, mode⟩ text := by
  have hv : vocabulary ⟨r', mode⟩ = vocabulary ⟨r, mode⟩ := by
    have hw : vocabulary ⟨r', mode⟩ = .ofBounds r'.bounds (r.extra ++ r.strip) := by
      apply vocabulary_eq
      intro t hne
      rw [ht t hne, Rules.mem_tokens_iff, List.mem_append]
      simp only [Rules.boundTokens, Rules.openers, Rules.closers, hb]
    rw [hw, hb]
    symm
    apply vocabulary_eq
    intro t _
    rw [Rules.mem_tokens_iff, List.mem_append]
  unfold parse grouping
  rw [hv, hb]
  cases mode with
  | lenient => exact congrArg Except.ok (Grouping.group_congr r.bounds hs _)
  | strict => exact Grouping.groupStrict_congr r.bounds hs _

/-- A list of splitting tokens may leave out what is repeated, empty or named elsewhere, and be in any order; and
separators may be given in any list that makes the same set with the tokens of pairs. -/
theorem parse_eq_of_same_sets (r : Rules) (text : String) :
    (∀ (mode : Mode) (extra strip : List String), extra.Perm r.ownExtra → strip.Perm r.ownStrip →
      parse ⟨⟨r.bounds, extra, strip⟩, mode⟩ text = parse ⟨r, mode⟩ text) ∧
    ∀ separators : List String,
      (∀ t, t ≠ "" → (t ∈ r.boundTokens ∨ t ∈ separators ↔ t ∈ r.boundTokens ∨ t ∈ r.extra ∨ t ∈ r.strip)) →
      parse ⟨r, .lenient⟩ text = .ok (treeOf text r.bounds separators r.strip) := by
  constructor
  · intro mode extra strip he hs
    have hstrip : ∀ t, t ≠ "" → (t ∈ strip ↔ t ∈ r.strip) := by
      intro t hne
      rw [hs.mem_iff, Rules.mem_ownStrip_iff hne]
    refine @parse_congr r ⟨r.bounds, extra, strip⟩ rfl hstrip ?_ mode text
    intro t hne
    have hb : t ∈ Rules.boundTokens ⟨r.bounds, extra, strip⟩ ↔ t ∈ r.boundTokens := Iff.rfl
    rw [Rules.mem_tokens_iff, Rules.mem_tokens_iff, hb, he.mem_iff, Rules.mem_ownExtra_iff hne, hstrip t hne]
    -- a token that was taken from `extra` is a token of a pair or of `strip`
    tauto
  · intro separators h
    have hv : vocabulary ⟨r, .lenient⟩ = .ofBounds r.bounds separators := by
      apply vocabulary_eq
      intro t hne
      rw [Rules.mem_tokens_iff]
      exact h t hne
    exact congrArg (fun v => Except.ok (Grouping.group ⟨r.bounds, r.strip⟩ (v.split text))) hv

theorem parse_eq_of_same_sets_overlapping :
    let r : Rules :=
      ⟨.ofList [("(", ")"), ("<<", ">>")], ["\n", "", "(", "\n", ";", ">>", "<"], [" ", "", ";", " "]⟩
    let text := "a <b; <<c\n"
    let separators := ["<", ">>", " ", "", "\n", ";", "<"]
    ["<", "\n"].Perm r.ownExtra ∧ [";", " "].Perm r.ownStrip ∧
      (∀ t, t ≠ "" → (t ∈ r.boundTokens ∨ t ∈ separators ↔ t ∈ r.boundTokens ∨ t ∈ r.extra ∨ t ∈ r.strip)) ∧
      parse ⟨⟨r.bounds, ["<", "\n"], [";", " "]⟩, .strict⟩ text = .error (.unbalanced 1 "<<" 6) ∧
      parse ⟨r, .strict⟩ text = .error (.unbalanced 1 "<<" 6) ∧
      treeOf text r.bounds separators r.strip =
        [.leaf "a", .leaf "<", .leaf "b", .group [.leaf "<<", .leaf "c", .leaf "\n"]] ∧
      parse ⟨r, .lenient⟩ text =
        .ok [.leaf "a", .leaf "<", .leaf "b", .group [.leaf "<<", .leaf "c", .leaf "\n"]] := by
  intro r text separators
  have he : ["<", "\n"].Perm r.ownExtra := by decide +kernel
  have hs : [";", " "].Perm r.ownStrip := by decide +kernel
  have hb : r.boundTokens = ["(", "<<", ")", ">>"] := by decide +kernel
  have hsep : ∀ t, t ≠ "" →
      (t ∈ r.boundTokens ∨ t ∈ separators ↔ t ∈ r.boundTokens ∨ t ∈ r.extra ∨ t ∈ r.strip) := by
    intro t ht
    rw [hb]
    simp only [r, separators, List.mem_cons, List.not_mem_nil, or_false]
    tauto
  obtain ⟨hperm, htree⟩ := parse_eq_of_same_sets r text
  have hp := hperm .strict _ _ he hs
  have ht := htree separators hsep
  have hstrict : parse ⟨r, .strict⟩ text = .error (.unbalanced 1 "<<" 6) := by decide +kernel
  have hlenient : treeOf text r.bounds separators r.strip =
      [.leaf "a", .leaf "<", .leaf "b", .group [.leaf "<<", .leaf "c", .leaf "\n"]] := by decide +kernel
  exact ⟨he, hs, hsep, hp.trans hstrict, hstrict, hlenient, ht.trans (congrArg Except.ok hlenient)⟩

end Parser
end BracketTree
