import BracketTree.Proofs.Lossless
import BracketTree.Proofs.TokenSets

/-! Grouping looks at what a piece spells and not at whether it is a token or content. It need not look: each token of a
pair and each token that is left out splits the text, so content never spells one, and grouping that goes by the kinds
of pieces makes the same of every text. -/

namespace BracketTree

namespace Grouping

/-- Takes in one piece by its kind: content is never more than a leaf, whatever it spells. -/
def stepByKind (g : Grouping) (s : State) (p : Piece) : State :=
  if p.isToken then g.step s p
  else if p.text = "" then s
  else s.put (.leaf p.text)

/-- Whether a piece is a token that closes and stands where it is not due. -/
def straysByKind (g : Grouping) (s : State) (p : Piece) : Bool := p.isToken && g.strays s p

def strictStepByKind (g : Grouping) (s : State) (p : Piece) : Except Error State :=
  if g.straysByKind s p then .error (.unexpectedClose p.text p.offset) else .ok (g.stepByKind s p)

def groupByKind (g : Grouping) (ps : List Piece) : Tree := (ps.foldl g.stepByKind {}).tree

def groupStrictByKind (g : Grouping) (ps : List Piece) : Except Error Tree := do
  (← ps.foldlM g.strictStepByKind {}).close

/-- The groups that have not ended wait for closing tokens of pairs. -/
def State.WaitsForPairs (g : Grouping) (s : State) : Prop :=
  ∃ c : Cursor, s.Shows c ∧ ∀ k ∈ c.closers, k ∈ g.bounds.values

/-- Nothing is to be done for what a piece spells but to put it into the tree. -/
structure Plain (g : Grouping) (t : String) : Prop where
  opens_none : g.bounds.find? t = none
  closes_none : t ∉ g.bounds.values
  stays : t ∉ g.strip

section
variable {g : Grouping} {s : State} {p : Piece} {ps : List Piece}

theorem mem_of_mem_due {bounds : StringMap String} {ks : List String} {k t : String} (h : k ∈ due bounds ks t) :
    k ∈ bounds.values ∨ k ∈ ks := by
  have hk : k ∈ (bounds.find? t).toList ++ ks := by
    unfold due at h
    dsimp only at h
    split_ifs at h
    · exact List.mem_of_mem_tail h
    · exact h
  refine (List.mem_append.1 hk).imp_left fun hk => ?_
  exact StringMap.mem_values_of_find? (Option.mem_toList.1 hk)

theorem State.WaitsForPairs.init (g : Grouping) : State.WaitsForPairs g {} :=
  ⟨{}, .init, fun _ hk => absurd hk List.not_mem_nil⟩

theorem State.WaitsForPairs.step (h : s.WaitsForPairs g) (p : Piece) : (g.step s p).WaitsForPairs g := by
  obtain ⟨c, hs, hc⟩ := h
  refine ⟨_, hs.step g p, ?_⟩
  intro k hk
  by_cases he : p.text = ""
  · rw [c.step_empty he] at hk
    exact hc k hk
  · rw [c.closers_step g p he] at hk
    exact (mem_of_mem_due hk).elim id (hc k)

theorem State.WaitsForPairs.not_awaits (h : s.WaitsForPairs g) {t : String} (ht : t ∉ g.bounds.values) :
    s.awaits t = false := by
  obtain ⟨c, hs, hc⟩ := h
  rw [Bool.eq_false_iff, hs.awaits_eq]
  intro ha
  exact ht (hc t (List.mem_of_mem_head? ((c.head?_closers t).2 ha)))

theorem State.WaitsForPairs.put_leaf (h : s.WaitsForPairs g) (t : String) : (s.put (.leaf t)).WaitsForPairs g := by
  obtain ⟨c, hs, hc⟩ := h
  exact ⟨_, hs.put_leaf t, hc⟩

/-- What spells no token of the rules becomes a leaf. -/
theorem step_of_plain (hs : s.WaitsForPairs g) (he : p.text ≠ "") (hp : g.Plain p.text) :
    g.step s p = s.put (.leaf p.text) := by
  have hopen : g.openStep s p = s := by
    unfold openStep
    rw [hp.opens_none]
  have hleaf : g.leafStep s p = s.put (.leaf p.text) := by
    unfold leafStep
    rw [if_neg fun h => hp.stays (List.contains_iff_mem.1 h)]
  rw [step, if_neg he, hopen, hleaf, closeStep, (hs.put_leaf _).not_awaits hp.closes_none]
  rfl

theorem stepByKind_eq (hs : s.WaitsForPairs g) (hp : p.isToken = false → p.text ≠ "" → g.Plain p.text) :
    g.stepByKind s p = g.step s p := by
  unfold stepByKind
  split_ifs with hk he
  · rfl
  · exact (if_pos he).symm
  · exact (step_of_plain hs he (hp (Bool.eq_false_iff.2 hk) he)).symm

theorem straysByKind_eq (s : State) (hp : p.isToken = false → p.text ≠ "" → g.Plain p.text) :
    g.straysByKind s p = g.strays s p := by
  unfold straysByKind
  cases hk : p.isToken with
  | true => rfl
  | false =>
    by_cases he : p.text = ""
    · simp [strays, he]
    · simp [strays, (hp hk he).closes_none]

theorem foldl_stepByKind (hs : s.WaitsForPairs g)
    (hps : ∀ p ∈ ps, p.isToken = false → p.text ≠ "" → g.Plain p.text) :
    ps.foldl g.stepByKind s = ps.foldl g.step s := by
  induction ps generalizing s with
  | nil => rfl
  | cons p ps ih =>
    rw [List.foldl_cons, List.foldl_cons, stepByKind_eq hs (hps p List.mem_cons_self)]
    exact ih (hs.step p) fun q hq => hps q (List.mem_cons_of_mem p hq)

theorem foldlM_strictStepByKind (hs : s.WaitsForPairs g)
    (hps : ∀ p ∈ ps, p.isToken = false → p.text ≠ "" → g.Plain p.text) :
    ps.foldlM g.strictStepByKind s = ps.foldlM g.strictStep s := by
  induction ps generalizing s with
  | nil => rfl
  | cons p ps ih =>
    have hp := hps p List.mem_cons_self
    rw [List.foldlM_cons, List.foldlM_cons, strictStepByKind, strictStep, straysByKind_eq s hp, stepByKind_eq hs hp]
    cases g.strays s p with
    | true => rfl
    | false => exact ih (hs.step p) fun q hq => hps q (List.mem_cons_of_mem p hq)

theorem groupByKind_eq (hps : ∀ p ∈ ps, p.isToken = false → p.text ≠ "" → g.Plain p.text) :
    g.groupByKind ps = g.group ps :=
  congrArg State.tree (foldl_stepByKind (.init g) hps)

theorem groupStrictByKind_eq (hps : ∀ p ∈ ps, p.isToken = false → p.text ≠ "" → g.Plain p.text) :
    g.groupStrictByKind ps = g.groupStrict ps :=
  congrArg (· >>= State.close) (foldlM_strictStepByKind (.init g) hps)

end
end Grouping

/-- Content spells no token at which the text is split. -/
theorem Vocabulary.plain_of_mem_split {bounds : StringMap String} {separators strip : List String} {text : String}
    {p : Piece} (hstrip : ∀ t ∈ strip, t ≠ "" → t ∈ separators ∨ t ∈ bounds.keys ∨ t ∈ bounds.values)
    (hp : p ∈ (ofBounds bounds separators).split text) (hk : p.isToken = false) (he : p.text ≠ "") :
    Grouping.Plain ⟨bounds, strip⟩ p.text := by
  have htokens : bounds.entries.flatMap (fun e => [e.1, e.2]) ++ separators =
      Rules.tokens ⟨bounds, separators, []⟩ := (List.append_nil _).symm
  have hnot : p.text ∉ Rules.tokens ⟨bounds, separators, []⟩ := by
    intro ht
    rw [← htokens] at ht
    exact (segmentation_split _ text).not_inside hp hk ht he (List.infix_refl _)
  rw [Rules.mem_tokens_iff, Rules.boundTokens, List.mem_append, not_or, not_or, not_or] at hnot
  obtain ⟨⟨hkeys, hvalues⟩, hseparators, -⟩ := hnot
  refine ⟨?_, hvalues, ?_⟩
  · rw [← StringMap.contains_eq_false_iff, Bool.eq_false_iff]
    exact fun h => hkeys (Rules.isOpener_iff.1 h)
  · intro hs
    rcases hstrip p.text hs he with h | h | h
    · exact hseparators h
    · exact hkeys h
    · exact hvalues h

namespace Parser

def parseByKind (p : Parser) (text : String) : Except Grouping.Error Tree :=
  let pieces := p.vocabulary.split text
  match p.mode with
  | .lenient => .ok (p.grouping.groupByKind pieces)
  | .strict => p.grouping.groupStrictByKind pieces

end Parser

/-- As `treeOf`, with the pieces grouped by their kinds. -/
def treeByKindOf (text : String) (bounds : StringMap String) (separators strip : List String) : Tree :=
  Grouping.groupByKind ⟨bounds, strip⟩ ((Vocabulary.ofBounds bounds separators).split text)

namespace Parser

/-- Content is never taken for a token of the rules, nor where tokens are left out that the text is split at. -/
theorem parse_eq_parseByKind (text : String) :
    (∀ p : Parser, p.parse text = p.parseByKind text) ∧
      ∀ (bounds : StringMap String) (separators strip : List String),
        (∀ t ∈ strip, t ≠ "" → t ∈ separators ∨ t ∈ bounds.keys ∨ t ∈ bounds.values) →
        treeOf text bounds separators strip = treeByKindOf text bounds separators strip := by
  constructor
  · rintro ⟨r, mode⟩
    have hstrip : ∀ t ∈ r.strip, t ≠ "" → t ∈ r.separators ∨ t ∈ r.bounds.keys ∨ t ∈ r.bounds.values := by
      intro t ht _
      rw [Rules.separators, List.mem_eraseDups]
      exact .inl (List.mem_append_right _ ht)
    have hplain := fun p => @Vocabulary.plain_of_mem_split r.bounds r.separators r.strip text p hstrip
    cases mode with
    | lenient => exact congrArg Except.ok (Grouping.groupByKind_eq hplain).symm
    | strict => exact (Grouping.groupStrictByKind_eq hplain).symm
  · intro bounds separators strip hstrip
    exact (Grouping.groupByKind_eq fun p => Vocabulary.plain_of_mem_split hstrip).symm

theorem parse_eq_parseByKind_overlapping :
    let bounds : StringMap String := .ofList [("<<", ">>")]
    let strip := ["", "ab", ">>"]
    let t : Tree := [.leaf "a", .group [.leaf "<<", .leaf "<b"]]
    (∀ t ∈ strip, t ≠ "" → t ∈ ["ab"] ∨ t ∈ bounds.keys ∨ t ∈ bounds.values) ∧
      treeOf "a<<<bab>>" bounds ["ab"] strip = t ∧ treeByKindOf "a<<<bab>>" bounds ["ab"] strip = t := by
  intro bounds strip t
  have hstrip : ∀ t ∈ strip, t ≠ "" → t ∈ ["ab"] ∨ t ∈ bounds.keys ∨ t ∈ bounds.values := by decide
  have ht : treeOf "a<<<bab>>" bounds ["ab"] strip = t := by decide +kernel
  exact ⟨hstrip, ht, ((parse_eq_parseByKind "a<<<bab>>").2 bounds ["ab"] strip hstrip).symm.trans ht⟩

/-- Left out without being split at, content is taken for a token. -/
example : treeOf "a" ∅ [] ["a"] = [] ∧ treeByKindOf "a" ∅ [] ["a"] = [.leaf "a"] := by decide +kernel

end Parser
end BracketTree
