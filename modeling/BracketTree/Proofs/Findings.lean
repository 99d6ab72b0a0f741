import BracketTree.Proofs.TokenSets
import Mathlib.Data.List.Count

/-! What is found against a rule set. A finding is made as often as there is occasion for it: once for an empty token,
once for an opening token that is a closing token too, once for a token of a pair among the splitting tokens, and
once for each time a list names a token again. An empty token is found first, so it is what stands in the way however
strictly the rules are judged. -/

namespace BracketTree

theorem nodup_eraseDups {α : Type} [BEq α] [LawfulBEq α] (xs : List α) : xs.eraseDups.Nodup := by
  induction hn : xs.length using Nat.strongRecOn generalizing xs with
  | ind n ih =>
    cases xs with
    | nil => exact .nil
    | cons x xs =>
      rw [List.eraseDups_cons]
      have hlen := List.length_filter_le (fun y => !y == x) xs
      simp only [List.length_cons] at hn
      refine List.nodup_cons.2 ⟨?_, ih _ (by omega) _ rfl⟩
      rw [List.mem_eraseDups, List.mem_filter]
      simp

namespace Rules

def listed (r : Rules) : TokenList → List String
  | .extra => r.extra
  | .strip => r.strip

/-- How often there is occasion for a finding. -/
def occasions (r : Rules) : Issue → Nat
  | .emptyToken => if "" ∈ r.tokens then 1 else 0
  | .selfClosing o => if o ≠ "" ∧ r.closerOf? o = some o then 1 else 0
  | .openAndClose o => if o ≠ "" ∧ o ∈ r.openers ∧ r.closerOf? o ≠ some o ∧ o ∈ r.closers then 1 else 0
  | .openIsSeparator t => if t ≠ "" ∧ t ∈ r.boundTokens ∧ t ∈ r.extra then 1 else 0
  | .duplicate t l => if t = "" then 0 else (r.listed l).count t - 1

def emptyIssues (r : Rules) : List Issue := if "" ∈ r.tokens then [.emptyToken] else []

def pairIssues (r : Rules) : List Issue := r.bounds.entries.filterMap fun e => r.boundIssue? e.1 e.2

def separatorIssues (r : Rules) : List Issue :=
  ((r.openers ++ r.closers).eraseDups.filter fun t => t ≠ "" && r.extra.contains t).map .openIsSeparator

theorem issues_eq (r : Rules) : r.issues = r.emptyIssues ++ r.pairIssues ++ r.separatorIssues ++
    duplicates .extra r.extra ++ duplicates .strip r.strip := rfl

section
variable {r : Rules} {i : Issue} {o c t : String}

theorem mem_emptyIssues : i ∈ r.emptyIssues ↔ "" ∈ r.tokens ∧ i = .emptyToken := by
  unfold emptyIssues
  split_ifs with h <;> simp [h]

theorem nodup_emptyIssues (r : Rules) : r.emptyIssues.Nodup := by
  unfold emptyIssues
  split_ifs
  · exact List.nodup_singleton _
  · exact .nil

/-! Pairs. -/

theorem boundIssue?_eq_some_iff : r.boundIssue? o c = some i ↔
    o ≠ "" ∧ (o = c ∧ i = .selfClosing o ∨ o ≠ c ∧ o ∈ r.closers ∧ i = .openAndClose o) := by
  rw [boundIssue?, ← isCloser_iff]
  split_ifs with h1 h2 h3
  · simp [h1]
  · simp [h1, ← h2, @eq_comm _ i]
  · simp [h1, h2, h3, @eq_comm _ i]
  · simp [h2, h3]

theorem mem_pairIssues : i ∈ r.pairIssues ↔ ∃ o c, r.closerOf? o = some c ∧ r.boundIssue? o c = some i := by
  rw [pairIssues, List.mem_filterMap]
  constructor
  · rintro ⟨⟨o, c⟩, he, hi⟩
    exact ⟨o, c, StringMap.find?_eq_some_of_mem he, hi⟩
  · rintro ⟨o, c, hf, hi⟩
    exact ⟨(o, c), StringMap.mem_of_find?_eq_some hf, hi⟩

theorem selfClosing_mem_pairIssues : .selfClosing o ∈ r.pairIssues ↔ o ≠ "" ∧ r.closerOf? o = some o := by
  simp only [mem_pairIssues, boundIssue?_eq_some_iff]
  grind

theorem openAndClose_mem_pairIssues : .openAndClose o ∈ r.pairIssues ↔
    o ≠ "" ∧ o ∈ r.openers ∧ r.closerOf? o ≠ some o ∧ o ∈ r.closers := by
  have ho : o ∈ r.openers ↔ ∃ c, r.closerOf? o = some c := by
    rw [← isOpener_iff, isOpener, StringMap.contains_eq_isSome, Option.isSome_iff_exists]
    rfl
  simp only [mem_pairIssues, boundIssue?_eq_some_iff, ho]
  grind

/-- There is at most one finding about each pair, and it names the opening token. -/
theorem nodup_pairIssues (r : Rules) : r.pairIssues.Nodup := by
  have htoken : ∀ o c i, r.boundIssue? o c = some i → i.token = o := by
    intro o c i h
    obtain ⟨-, ⟨-, rfl⟩ | ⟨-, -, rfl⟩⟩ := boundIssue?_eq_some_iff.1 h
    · rfl
    · rfl
  refine List.pairwise_filterMap.2 (r.bounds.sorted.imp ?_)
  rintro ⟨o, c⟩ ⟨o', c'⟩ hlt i hi j hj rfl
  rw [← htoken o c i hi, ← htoken o' c' i hj] at hlt
  exact String.lt_irrefl _ hlt

/-! Tokens of pairs among the splitting tokens. -/

theorem mem_separatorIssues :
    i ∈ r.separatorIssues ↔ ∃ t, (t ≠ "" ∧ t ∈ r.boundTokens ∧ t ∈ r.extra) ∧ .openIsSeparator t = i := by
  simp only [separatorIssues, boundTokens, List.mem_map, List.mem_filter, List.mem_eraseDups, Bool.and_eq_true,
    decide_eq_true_eq, List.contains_iff_mem]
  grind

theorem nodup_separatorIssues (r : Rules) : r.separatorIssues.Nodup := by
  refine ((nodup_eraseDups _).filter _).map ?_
  intro s t h
  exact Issue.openIsSeparator.inj h

/-! Repetitions. -/

/-- A token is repeated as often as it is named, less the first time, unless that has been seen before. -/
theorem count_repeats (ts seen : List String) (t : String) :
    (repeats ts seen).count t = if t ∈ seen then ts.count t else ts.count t - 1 := by
  induction ts generalizing seen with
  | nil => simp [repeats]
  | cons u us ih =>
    rw [repeats]
    split_ifs with hu ht ht
    · rw [List.count_cons, List.count_cons, ih, if_pos ht]
    · have hne : u ≠ t := fun h => ht (h ▸ hu)
      rw [List.count_cons_of_ne hne, List.count_cons_of_ne hne, ih, if_neg ht]
    · have hne : u ≠ t := fun h => hu (h ▸ ht)
      rw [List.count_cons_of_ne hne, ih, if_pos (List.mem_cons_of_mem u ht)]
    · by_cases hne : u = t
      · subst hne
        rw [ih, if_pos List.mem_cons_self, List.count_cons_self, Nat.add_sub_cancel]
      · have hn : t ∉ u :: seen := List.not_mem_cons_of_ne_of_not_mem (Ne.symm hne) ht
        rw [ih, if_neg hn, List.count_cons_of_ne hne]

theorem count_duplicates (l : TokenList) (ts : List String) (i : Issue) : (duplicates l ts).count i =
    if i = .duplicate i.token l ∧ i.token ≠ "" then ts.count i.token - 1 else 0 := by
  split_ifs with h
  · have hinj : Function.Injective (Issue.duplicate · l) := fun s u hs => (Issue.duplicate.inj hs).1
    rw [h.1, duplicates, List.count_map_of_injective _ (Issue.duplicate · l) hinj, count_repeats,
      if_neg List.not_mem_nil, List.count_filter (by simpa using h.2)]
    rfl
  · rw [List.count_eq_zero, duplicates, List.mem_map]
    rintro ⟨t, ht, rfl⟩
    -- the empty token has been taken out of the list
    obtain rfl : t = "" := by simpa [Issue.token] using h
    have hn : "" ∉ ts.filter (· ≠ "") := by simp
    rw [← List.count_pos_iff, count_repeats, List.count_eq_zero.2 hn] at ht
    simp at ht

end

/-! All findings together. -/

/-- Every finding is made as often as there is occasion for it. -/
theorem count_issues (r : Rules) (i : Issue) : r.issues.count i = r.occasions i := by
  rw [issues_eq]
  simp only [List.count_append, r.nodup_emptyIssues.count, r.nodup_pairIssues.count,
    r.nodup_separatorIssues.count, count_duplicates]
  cases i with
  | emptyToken =>
    simp [occasions, mem_emptyIssues, mem_pairIssues, mem_separatorIssues, boundIssue?_eq_some_iff]
  | selfClosing o => simp [occasions, mem_emptyIssues, selfClosing_mem_pairIssues, mem_separatorIssues]
  | openAndClose o => simp [occasions, mem_emptyIssues, openAndClose_mem_pairIssues, mem_separatorIssues]
  | openIsSeparator t =>
    simp [occasions, mem_emptyIssues, mem_pairIssues, mem_separatorIssues, boundIssue?_eq_some_iff]
  | duplicate t l =>
    cases l <;>
      simp [occasions, listed, Issue.token, mem_emptyIssues, mem_pairIssues, mem_separatorIssues,
        boundIssue?_eq_some_iff]

theorem mem_issues {r : Rules} {i : Issue} : i ∈ r.issues ↔ r.occasions i ≠ 0 := by
  rw [← count_issues, ne_eq, List.count_eq_zero, not_not]

theorem severity_eq_error_iff {i : Issue} : i.severity = .error ↔ i = .emptyToken := by
  cases i <;> simp [Issue.severity]

section
variable {r : Rules}

/-- An empty token is found first. -/
theorem head?_issues_eq_emptyToken_iff : r.issues.head? = some .emptyToken ↔ "" ∈ r.tokens := by
  constructor
  · intro h
    have hm := mem_issues.1 (List.mem_of_mem_head? h)
    by_contra hn
    exact hm (if_neg hn)
  · intro h
    rw [issues_eq, emptyIssues, if_pos h]
    rfl

structure Clean (r : Rules) : Prop where
  not_empty : "" ∉ r.tokens
  /-- No opening token is a closing token. -/
  disjoint : ∀ t ∈ r.openers, t ∉ r.closers
  apart : ∀ t ∈ r.boundTokens, t ∉ r.extra
  nodup_extra : r.extra.Nodup
  nodup_strip : r.strip.Nodup

/-- A list of tokens, none of them empty, names no token again if there is no occasion to find fault with it. -/
theorem nodup_of_occasions {l : TokenList} (hne : "" ∉ r.listed l) (h : ∀ t, r.occasions (.duplicate t l) = 0) :
    (r.listed l).Nodup := by
  rw [List.nodup_iff_count_le_one]
  intro t
  by_cases ht : t = ""
  · rw [ht, List.count_eq_zero.2 hne]
    exact Nat.zero_le 1
  · have hc := h t
    rw [occasions, if_neg ht] at hc
    omega

theorem clean_of_occasions (h : ∀ i, r.occasions i = 0) : r.Clean := by
  have hempty : "" ∉ r.tokens := by simpa [occasions] using h .emptyToken
  obtain ⟨hbound, hextra, hstrip⟩ : "" ∉ r.boundTokens ∧ "" ∉ r.extra ∧ "" ∉ r.strip := by
    rwa [mem_tokens_iff, not_or, not_or] at hempty
  have hne : ∀ t ∈ r.boundTokens, t ≠ "" := by
    rintro t ht rfl
    exact hbound ht
  refine ⟨hempty, ?_, ?_, nodup_of_occasions (l := .extra) hextra fun t => h _,
    nodup_of_occasions (l := .strip) hstrip fun t => h _⟩
  · intro t ho hc
    have ht := hne t (List.mem_append_left _ ho)
    by_cases hs : r.closerOf? t = some t
    · simpa [occasions, ht, hs] using h (.selfClosing t)
    · simpa [occasions, ht, ho, hs, hc] using h (.openAndClose t)
  · intro t ht he
    simpa [occasions, hne t ht, ht, he] using h (.openIsSeparator t)

theorem Clean.occasions_eq_zero (h : r.Clean) (i : Issue) : r.occasions i = 0 := by
  cases i with
  | emptyToken => exact if_neg h.not_empty
  | selfClosing o =>
    refine if_neg ?_
    rintro ⟨-, hs⟩
    exact h.disjoint o (isOpener_iff.1 (StringMap.contains_of_find? hs)) (StringMap.mem_values_of_find? hs)
  | openAndClose o =>
    refine if_neg ?_
    rintro ⟨-, ho, -, hc⟩
    exact h.disjoint o ho hc
  | openIsSeparator t =>
    refine if_neg ?_
    rintro ⟨-, ht, he⟩
    exact h.apart t ht he
  | duplicate t l =>
    have hl : (r.listed l).Nodup := by
      cases l with
      | extra => exact h.nodup_extra
      | strip => exact h.nodup_strip
    have hle := List.nodup_iff_count_le_one.1 hl t
    rw [occasions]
    split_ifs <;> omega

theorem issues_eq_nil_iff : r.issues = [] ↔ r.Clean := by
  simp only [List.eq_nil_iff_forall_not_mem, mem_issues, not_not]
  exact ⟨clean_of_occasions, Clean.occasions_eq_zero⟩

/-! What stands in the way of using the rules. -/

/-- Whether a finding stands in the way: an error does, and a warning if rules are judged strictly. -/
def Issue.Bars (strict : Bool) (i : Issue) : Prop := strict = true ∨ i.severity = .error

/-- The first finding that stands in the way, those before it being of no weight. -/
def FirstObjection (r : Rules) (strict : Bool) (i : Issue) : Prop :=
  ∃ before after, r.issues = before ++ i :: after ∧ i.Bars strict ∧ ∀ j ∈ before, ¬ j.Bars strict

def Unobjected (r : Rules) (strict : Bool) : Prop := ∀ i ∈ r.issues, ¬ i.Bars strict

theorem Issue.blocks_iff {strict : Bool} {i : Issue} : i.blocks strict = true ↔ i.Bars strict := by
  simp [blocks, Bars]

theorem objection?_eq_some_iff {strict : Bool} {i : Issue} :
    r.objection? strict = some i ↔ r.FirstObjection strict i := by
  unfold objection? FirstObjection
  rw [List.find?_eq_some_iff_append]
  simp only [← Issue.blocks_iff, Bool.not_eq_true', Bool.not_eq_true]
  constructor
  · rintro ⟨hi, before, after, hsplit, hbefore⟩
    exact ⟨before, after, hsplit, hi, hbefore⟩
  · rintro ⟨before, after, hsplit, hi, hbefore⟩
    exact ⟨hi, before, after, hsplit, hbefore⟩

theorem objection?_eq_none_iff {strict : Bool} : r.objection? strict = none ↔ r.Unobjected strict := by
  simp [objection?, Unobjected, Issue.blocks_iff]

theorem objection?_lenient_eq_none_iff : r.objection? false = none ↔ "" ∉ r.tokens := by
  rw [objection?_eq_none_iff]
  constructor
  · intro h ht
    exact h _ (List.mem_of_mem_head? (head?_issues_eq_emptyToken_iff.2 ht)) (.inr rfl)
  · intro h i hi
    have hne : i ≠ .emptyToken := by
      rintro rfl
      exact mem_issues.1 hi (if_neg h)
    simpa [Issue.Bars, severity_eq_error_iff] using hne

theorem objection?_strict_eq_none_iff : r.objection? true = none ↔ r.Clean := by
  rw [objection?_eq_none_iff, ← issues_eq_nil_iff, List.eq_nil_iff_forall_not_mem]
  simp [Unobjected, Issue.Bars]

theorem objection?_of_empty (h : "" ∈ r.tokens) (strict : Bool) : r.objection? strict = some .emptyToken := by
  obtain ⟨is, his⟩ := List.head?_eq_some_iff.1 (head?_issues_eq_emptyToken_iff.2 h)
  rw [objection?, his]
  cases strict <;> rfl

/-- What stands in the way of using the rules leniently stands in the way of using them strictly. -/
theorem objection?_strict_of_lenient {i : Issue} (h : r.objection? false = some i) : r.objection? true = some i := by
  have ht : "" ∈ r.tokens := by
    by_contra hn
    rw [objection?_lenient_eq_none_iff.2 hn] at h
    cases h
  rw [← h, objection?_of_empty ht, objection?_of_empty ht]

end
end Rules
end BracketTree
