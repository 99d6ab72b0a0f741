import BracketTree.Proofs.VocabularyOrder
import Mathlib.Tactic.Tauto

/-! What a vocabulary and its pattern say of each other. Tokens have one order in which they can stand, so which tokens
there are settles the vocabulary. The pattern in turn shows the vocabulary: a bar or a backslash that belongs to a token
has a backslash before it that no other one escapes, so the pattern can be cut into the escaped tokens, and these
without their escaping backslashes are the tokens. -/

namespace BracketTree.Vocabulary

/-- Cuts a text at each bar that no backslash escapes. `part` holds the characters since the last such bar, the last
one first, and `escaped` says whether a backslash that is not escaped itself stands right before the rest. -/
def cutFrom (escaped : Bool) (part : List Char) : List Char → List (List Char)
  | [] => [part.reverse]
  | c :: cs =>
    if c = '|' && !escaped then part.reverse :: cutFrom false [] cs
    else cutFrom (c = '\\' && !escaped) (c :: part) cs

/-- What stands between the bars of a pattern. -/
def alternatives (pattern : String) : List String := (cutFrom false [] pattern.toList).map String.ofList

/-- Leaves out each backslash that escapes the character behind it. -/
def plainFrom (escaped : Bool) : List Char → List Char
  | [] => []
  | c :: cs => if c = '\\' && !escaped then plainFrom true cs else c :: plainFrom false cs

def plain (t : String) : String := String.ofList (plainFrom false t.toList)

def escapeChar (c : Char) : List Char := if c ∈ specials then ['\\', c] else [c]

theorem toList_escape (t : String) : (escape t).toList = t.toList.flatMap escapeChar := String.toList_ofList

theorem cutFrom_escapeChar (c : Char) (part cs : List Char) :
    cutFrom false part (escapeChar c ++ cs) = cutFrom false ((escapeChar c).reverse ++ part) cs := by
  unfold escapeChar
  split_ifs with h
  · simp [cutFrom]
  · have hbar : c ≠ '|' := by
      rintro rfl
      exact h (by decide)
    have hslash : c ≠ '\\' := by
      rintro rfl
      exact h (by decide)
    simp [cutFrom, hbar, hslash]

theorem plainFrom_escapeChar (c : Char) (cs : List Char) :
    plainFrom false (escapeChar c ++ cs) = c :: plainFrom false cs := by
  unfold escapeChar
  split_ifs with h
  · simp [plainFrom]
  · have hslash : c ≠ '\\' := by
      rintro rfl
      exact h (by decide)
    simp [plainFrom, hslash]

/-- No bar of an escaped text is cut at. -/
theorem cutFrom_escape (t part cs : List Char) :
    cutFrom false part (t.flatMap escapeChar ++ cs) = cutFrom false ((t.flatMap escapeChar).reverse ++ part) cs := by
  induction t generalizing part with
  | nil => rfl
  | cons c t ih =>
    rw [List.flatMap_cons, List.append_assoc, cutFrom_escapeChar, ih, List.reverse_append, List.append_assoc]

theorem plainFrom_escape (t : List Char) : plainFrom false (t.flatMap escapeChar) = t := by
  induction t with
  | nil => rfl
  | cons c t ih => rw [List.flatMap_cons, plainFrom_escapeChar, ih]

theorem plain_escape (t : String) : plain (escape t) = t := by
  rw [plain, toList_escape, plainFrom_escape, String.ofList_toList]

theorem alternatives_escape (t : String) : alternatives (escape t) = [escape t] := by
  have hc := cutFrom_escape t.toList [] []
  rw [List.append_nil, List.append_nil, ← toList_escape] at hc
  rw [alternatives, hc, cutFrom, List.reverse_reverse, List.map_singleton, String.ofList_toList]

theorem alternatives_escape_append (t rest : String) :
    alternatives (escape t ++ "|" ++ rest) = escape t :: alternatives rest := by
  have hc := cutFrom_escape t.toList [] ('|' :: rest.toList)
  rw [List.append_nil, ← toList_escape] at hc
  have hl : (escape t ++ "|" ++ rest).toList = (escape t).toList ++ '|' :: rest.toList := by simp
  rw [alternatives, hl, hc]
  simp [cutFrom, alternatives]

theorem alternatives_intercalate_escape {ts : List String} (h : ts ≠ []) :
    alternatives ("|".intercalate (ts.map escape)) = ts.map escape := by
  induction ts with
  | nil => exact absurd rfl h
  | cons t ts ih =>
    cases ts with
    | nil => simpa using alternatives_escape t
    | cons u us =>
      rw [List.map_cons, List.map_cons, String.intercalate_cons_cons, ← List.map_cons, alternatives_escape_append,
        ih (List.cons_ne_nil u us)]

theorem pattern?_eq_none_iff {v : Vocabulary} : v.pattern? = none ↔ v.tokens = [] := by
  simp [pattern?]

theorem alternatives_of_pattern? {v : Vocabulary} {pattern : String} (h : v.pattern? = some pattern) :
    (alternatives pattern).map plain = v.tokens := by
  unfold pattern? at h
  split_ifs at h with he
  have hne : v.tokens ≠ [] := fun hn => he (List.isEmpty_iff.2 hn)
  rw [← Option.some.inj h, alternatives_intercalate_escape hne, List.map_map]
  exact List.map_id'' plain_escape v.tokens

theorem ofTokens_tokens (ts : List String) : ofTokens (ofTokens ts).tokens = ofTokens ts := by
  refine ofTokens_congr fun t ht => ?_
  rw [mem_tokens_ofTokens]
  exact and_iff_left ht

/-- A vocabulary holds the tokens in the one order they can have, depends on nothing but which tokens there are, and
can be read off its pattern, whatever the tokens spell. -/
theorem ofTokens_canonical_and_literal (ts : List String) :
    ((ofTokens ts).tokens.Pairwise (fun a b => b.length < a.length ∨ a.length = b.length ∧ b < a) ∧
      ∀ t, t ∈ (ofTokens ts).tokens ↔ t ∈ ts ∧ t ≠ "") ∧
    (∀ us, (∀ t, t ≠ "" → (t ∈ ts ↔ t ∈ us)) →
      ofTokens ts = ofTokens us ∧ (ofTokens ts).pattern? = (ofTokens us).pattern?) ∧
    ofTokens (ofTokens ts).tokens = ofTokens ts ∧
    ((ofTokens ts).pattern? = none ↔ (ofTokens ts).tokens = []) ∧
    ∀ pattern, (ofTokens ts).pattern? = some pattern → (alternatives pattern).map plain = (ofTokens ts).tokens := by
  refine ⟨⟨?_, fun t => mem_tokens_ofTokens⟩, fun us h => ?_, ofTokens_tokens ts, pattern?_eq_none_iff, ?_⟩
  · exact (pairwise_tokens_ofTokens ts).imp precedes_iff.1
  · have heq := ofTokens_congr h
    exact ⟨heq, congrArg pattern? heq⟩
  · intro pattern h
    exact alternatives_of_pattern? h

theorem ofTokens_canonical_and_literal_backslashes :
    let ts := ["|", "\\", "a\\", "", "|", "a|", "\\|", "|\\", ".*"]
    let us := [".*", "|\\", "\\|", "a|", "a\\", "\\", "|"]
    let vs := ["|\\", "a|", "a\\", "\\|", ".*", "|", "\\"]
    let pattern := "\\|\\\\|a\\||a\\\\|\\\\\\||\\.\\*|\\||\\\\"
    (∀ t, t ≠ "" → (t ∈ ts ↔ t ∈ us)) ∧ (ofTokens ts).tokens = vs ∧ (ofTokens us).tokens = vs ∧
      (ofTokens us).pattern? = some pattern ∧ (alternatives pattern).map plain = vs := by
  intro ts us vs pattern
  have hsame : ∀ t, t ≠ "" → (t ∈ ts ↔ t ∈ us) := by
    intro t ht
    simp only [ts, us, List.mem_cons, List.not_mem_nil, or_false, ht, false_or]
    tauto
  have hts : (ofTokens ts).tokens = vs := by decide +kernel
  have hp : (ofTokens ts).pattern? = some pattern := by decide +kernel
  obtain ⟨-, hcongr, -, -, hread⟩ := ofTokens_canonical_and_literal ts
  obtain ⟨hv, hpat⟩ := hcongr us hsame
  exact ⟨hsame, hts, hv ▸ hts, hpat ▸ hp, (hread pattern hp).trans hts⟩

end BracketTree.Vocabulary
