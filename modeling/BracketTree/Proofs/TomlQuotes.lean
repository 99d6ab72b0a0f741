import BracketTree.Toml.Quote
import Mathlib.Tactic.SplitIfs

/-! A text between quotes is read back, whichever quotes the writer takes. Without escapes every character stands for
itself. With escapes each one is read as the character it was made of; and of quotes in a row on several lines no
more than two stand unescaped, so that three are always the end. -/

namespace BracketTree.Toml.Quote

/-! Escapes. -/

theorem hexDigit?_toUpper : ∀ d, d < 16 → Text.hexDigit? (Nat.digitChar d).toUpper = some d := by decide

theorem numbered?_small {c : Char} (h : c.toNat < 0x100) :
    numbered? ['0', '0', (Nat.digitChar (c.toNat / 16)).toUpper, (Nat.digitChar (c.toNat % 16)).toUpper] =
      some c := by
  have h0 : Text.hexDigit? '0' = some 0 := rfl
  have h1 := hexDigit?_toUpper (c.toNat / 16) (by omega)
  have h2 := hexDigit?_toUpper (c.toNat % 16) (by omega)
  have hn : 16 * (c.toNat / 16) + c.toNat % 16 = c.toNat := by omega
  have hv : c.toNat.isValidChar := c.valid
  simp [numbered?, Text.hexNumber?, h0, h1, h2, hn, char?, hv]

/-- What an escape is: a letter, the character itself, or its number. -/
theorem escape_cases (c : Char) :
    (∃ l, escape c = ['\\', l] ∧ escaped? l = some c ∧ l ∉ ['x', 'u', 'U']) ∨
      (escape c = [c] ∧ isPlain c = true ∧ c ≠ '\\') ∨
      ∃ a b, escape c = ['\\', 'u', '0', '0', a, b] ∧ numbered? ['0', '0', a, b] = some c := by
  unfold escape
  split_ifs with h1 h2 h3 h4 h5 h6
  · exact .inl ⟨'b', rfl, by rw [h1]; rfl, by decide⟩
  · exact .inl ⟨'t', rfl, by rw [h2]; rfl, by decide⟩
  · exact .inl ⟨'f', rfl, by rw [h3]; rfl, by decide⟩
  · exact .inl ⟨'r', rfl, by rw [h4]; rfl, by decide⟩
  · exact .inl ⟨'\\', rfl, by rw [h5]; rfl, by decide⟩
  · exact .inr (.inl ⟨rfl, h6, h5⟩)
  · refine .inr (.inr ⟨_, _, rfl, numbered?_small ?_⟩)
    simp only [isPlain, Bool.or_eq_true, decide_eq_true_eq, Bool.and_eq_true, ne_eq, not_or, not_and,
      Decidable.not_not] at h6
    rcases Nat.lt_or_ge c.toNat 0x20 with hlt | hge
    · omega
    · have := h6.2 hge
      omega

theorem ne_of_isPlain {c : Char} (h : isPlain c = true) : c ≠ '\n' ∧ c ≠ '\r' := by
  constructor <;> rintro rfl <;> cases h

/-! One line. -/

section
variable {acc cs rest : List Char} {c d : Char}

theorem basic?_letter {l e : Char} (he : escaped? l = some e) (hl : l ∉ ['x', 'u', 'U']) :
    basic? acc ('\\' :: l :: cs) = basic? (e :: acc) cs := by
  simp only [List.mem_cons, List.not_mem_nil, or_false, not_or] at hl
  simp [basic?, hl, he]

theorem basic?_escape (hq : c ≠ '"') : basic? acc (escape c ++ cs) = basic? (c :: acc) cs := by
  obtain ⟨l, he, hl, hx⟩ | ⟨he, hp, hb⟩ | ⟨a, b, he, hn⟩ := escape_cases c
  · rw [he]
    exact basic?_letter hl hx
  · rw [he]
    simp [basic?, hb, hp]
  · rw [he]
    simp [basic?, hn]

theorem basic?_basicBody (cs acc rest : List Char) :
    basic? acc (basicBody cs ++ '"' :: rest) = some (acc.reverse ++ cs, rest) := by
  induction cs generalizing acc with
  | nil => simp [basicBody, basic?]
  | cons c cs ih =>
    have hc : basic? acc (basicBody (c :: cs) ++ '"' :: rest) =
        basic? (c :: acc) (basicBody cs ++ '"' :: rest) := by
      rw [basicBody, List.flatMap_cons, List.append_assoc]
      split_ifs with hq hn
      · rw [hq]
        exact basic?_letter rfl (by decide)
      · rw [hn]
        exact basic?_letter rfl (by decide)
      · exact basic?_escape hq
    rw [hc, ih]
    simp

/-- What begins with an escape does not begin with a quote. -/
theorem basicBody_cons (c : Char) (cs : List Char) : ∃ d ds, basicBody (c :: cs) = d :: ds ∧ d ≠ '"' := by
  rw [basicBody, List.flatMap_cons]
  split_ifs with hq hn
  · exact ⟨_, _, rfl, by decide⟩
  · exact ⟨_, _, rfl, by decide⟩
  · obtain ⟨l, he, -⟩ | ⟨he, -⟩ | ⟨a, b, he, -⟩ := escape_cases c
    · exact ⟨_, _, by rw [he]; rfl, by decide⟩
    · exact ⟨_, _, by rw [he]; rfl, hq⟩
    · exact ⟨_, _, by rw [he]; rfl, by decide⟩

theorem literal?_append (acc rest : List Char) (h : ∀ c ∈ cs, isPlain c = true ∧ c ≠ '\'') :
    literal? acc (cs ++ '\'' :: rest) = some (acc.reverse ++ cs, rest) := by
  induction cs generalizing acc with
  | nil => simp [literal?]
  | cons c cs ih =>
    obtain ⟨hp, hq⟩ := h c List.mem_cons_self
    have hc : literal? acc (c :: (cs ++ '\'' :: rest)) = literal? (c :: acc) (cs ++ '\'' :: rest) := by
      simp [literal?, hp]
    rw [List.cons_append, hc, ih _ fun d hd => h d (List.mem_cons_of_mem c hd)]
    simp

/-! Several lines. Quotes that have been met, but of which it is not yet known whether they are the end, are taken
along as `run`. -/

/-- Where no quote follows. -/
def Quiet (rest : List Char) : Prop := ∀ c ∈ rest.head?, c ≠ '"' ∧ c ≠ '\''

theorem quiet_cons (h1 : c ≠ '"') (h2 : c ≠ '\'') (cs : List Char) : Quiet (c :: cs) := by
  rintro d ⟨⟩
  exact ⟨h1, h2⟩

theorem run_cases {run : Nat} (h : run ≤ 2) : run = 0 ∨ run = 1 ∨ run = 2 := by omega

theorem basicLines?_letter {l e : Char} (he : escaped? l = some e) (hl : l ∉ ['x', 'u', 'U']) :
    basicLines? .text acc ('\\' :: l :: cs) = basicLines? .text (e :: acc) cs := by
  simp only [List.mem_cons, List.not_mem_nil, or_false, not_or] at hl
  have hn : l ≠ '\n' := by rintro rfl; cases he
  have hr : l ≠ '\r' := by rintro rfl; cases he
  have hs : l ≠ ' ' := by rintro rfl; cases he
  have ht : l ≠ '\t' := by rintro rfl; cases he
  simp [basicLines?, hl, hr, he]

theorem basicLines?_plain (hp : isPlain c = true) (hb : c ≠ '\\') (hq : c ≠ '"') :
    basicLines? .text acc (c :: cs) = basicLines? .text (c :: acc) cs := by
  obtain ⟨hn, hr⟩ := ne_of_isPlain hp
  simp [basicLines?, hp, hb, hq, hr]

theorem basicLines?_escape (hq : c ≠ '"') :
    basicLines? .text acc (escape c ++ cs) = basicLines? .text (c :: acc) cs := by
  obtain ⟨l, he, hl, hx⟩ | ⟨he, hp, hb⟩ | ⟨a, b, he, hn⟩ := escape_cases c
  · rw [he]
    exact basicLines?_letter hl hx
  · rw [he]
    exact basicLines?_plain hp hb hq
  · rw [he]
    simp [basicLines?, hn]

theorem basicLines?_run {run : Nat} (hr : run ≤ 2) (hd : d ≠ '"') :
    basicLines? .text acc (List.replicate run '"' ++ d :: cs) =
      basicLines? .text (List.replicate run '"' ++ acc) (d :: cs) := by
  obtain rfl | rfl | rfl := run_cases hr
  · rfl
  · simp [basicLines?, isPlain, hd, List.replicate]
  · simp [basicLines?, isPlain, hd, List.replicate]

theorem basicLines?_end {run : Nat} (hr : run ≤ 2) (h : Quiet rest) :
    basicLines? .text acc (List.replicate run '"' ++ '"' :: '"' :: '"' :: rest) =
      some (acc.reverse ++ List.replicate run '"', rest) := by
  cases rest with
  | nil => obtain rfl | rfl | rfl := run_cases hr <;> simp [basicLines?, List.replicate]
  | cons d rest =>
    have hd := (h d rfl).1
    obtain rfl | rfl | rfl := run_cases hr <;> simp [basicLines?, List.replicate, hd]

theorem basicLines?_basicLinesBody (cs : List Char) {run : Nat} (hr : run ≤ 2) (h : Quiet rest)
    (acc : List Char) :
    basicLines? .text acc (List.replicate run '"' ++ (basicLinesBody run cs ++ '"' :: '"' :: '"' :: rest)) =
      some (acc.reverse ++ (List.replicate run '"' ++ cs), rest) := by
  induction cs generalizing run acc with
  | nil => simpa [basicLinesBody] using basicLines?_end hr h
  | cons c cs ih =>
    have h0 := fun acc => ih (Nat.zero_le 2) acc
    simp only [List.replicate_zero, List.nil_append] at h0
    rw [basicLinesBody]
    split_ifs with hq h2 hn
    · -- the third quote in a row is escaped
      rw [hq, h2, List.cons_append, List.cons_append, basicLines?_run (Nat.le_refl 2) (by decide),
        basicLines?_letter rfl (by decide), h0]
      simp
    · have hr' : run + 1 ≤ 2 := by omega
      have h1 := ih hr' acc
      rw [List.replicate_succ', List.append_assoc, List.append_assoc] at h1
      rw [hq]
      exact h1
    · rw [hn, List.cons_append, basicLines?_run hr (by decide)]
      simp [basicLines?, h0]
    · have he : basicLines? .text acc (List.replicate run '"' ++
          (escape c ++ basicLinesBody 0 cs ++ '"' :: '"' :: '"' :: rest)) =
            basicLines? .text (c :: (List.replicate run '"' ++ acc))
              (basicLinesBody 0 cs ++ '"' :: '"' :: '"' :: rest) := by
        rw [List.append_assoc]
        -- no escape begins with a quote, so the quotes before it are no end
        have hhead : ∃ d ds, escape c = d :: ds ∧ d ≠ '"' := by
          obtain ⟨l, he, -⟩ | ⟨he, -⟩ | ⟨a, b, he, -⟩ := escape_cases c
          · exact ⟨_, _, he, by decide⟩
          · exact ⟨_, _, he, hq⟩
          · exact ⟨_, _, he, by decide⟩
        obtain ⟨d, ds, he, hd⟩ := hhead
        rw [← basicLines?_escape hq, he, List.cons_append, basicLines?_run hr hd]
      rw [he, h0]
      simp

theorem literalLines?_run {run : Nat} (hr : run ≤ 2) (hd : d ≠ '\'') :
    literalLines? acc (List.replicate run '\'' ++ d :: cs) =
      literalLines? (List.replicate run '\'' ++ acc) (d :: cs) := by
  obtain rfl | rfl | rfl := run_cases hr
  · rfl
  · simp [literalLines?, isPlain, hd, List.replicate]
  · simp [literalLines?, isPlain, hd, List.replicate]

theorem literalLines?_end {run : Nat} (hr : run ≤ 2) (h : Quiet rest) :
    literalLines? acc (List.replicate run '\'' ++ '\'' :: '\'' :: '\'' :: rest) =
      some (acc.reverse ++ List.replicate run '\'', rest) := by
  cases rest with
  | nil => obtain rfl | rfl | rfl := run_cases hr <;> simp [literalLines?, List.replicate]
  | cons d rest =>
    have hd := (h d rfl).2
    obtain rfl | rfl | rfl := run_cases hr <;> simp [literalLines?, List.replicate, hd]

theorem literalLines?_append {run : Nat} (hr : run ≤ 2) (hcs : ∀ c ∈ cs, isPlain c = true ∨ c = '\n')
    (h3 : hasThree '\'' run cs = false) (h : Quiet rest) (acc : List Char) :
    literalLines? acc (List.replicate run '\'' ++ (cs ++ '\'' :: '\'' :: '\'' :: rest)) =
      some (acc.reverse ++ (List.replicate run '\'' ++ cs), rest) := by
  induction cs generalizing run acc with
  | nil => simpa using literalLines?_end hr h
  | cons c cs ih =>
    have hcs' : ∀ d ∈ cs, isPlain d = true ∨ d = '\n' := fun d hd => hcs d (List.mem_cons_of_mem c hd)
    rw [hasThree] at h3
    split_ifs at h3 with hq
    · rw [Bool.or_eq_false_iff, decide_eq_false_iff_not] at h3
      have hr' : run + 1 ≤ 2 := by omega
      have h1 := ih hr' hcs' h3.2 acc
      rw [List.replicate_succ', List.append_assoc, List.append_assoc] at h1
      rw [hq]
      exact h1
    · have hc : literalLines? (List.replicate run '\'' ++ acc) (c :: (cs ++ '\'' :: '\'' :: '\'' :: rest)) =
          literalLines? (c :: (List.replicate run '\'' ++ acc)) (cs ++ '\'' :: '\'' :: '\'' :: rest) := by
        rcases hcs c List.mem_cons_self with hp | rfl
        · obtain ⟨hn, hr⟩ := ne_of_isPlain hp
          simp [literalLines?, hq, hp, hr]
        · simp [literalLines?]
      have h0 := ih (Nat.zero_le 2) hcs' h3 (c :: (List.replicate run '\'' ++ acc))
      simp only [List.replicate_zero, List.nil_append] at h0
      rw [List.cons_append, literalLines?_run hr hq, hc, h0]
      simp

end

/-! All ways to quote. -/

/-- What the first line break is dropped from is what was written, with its break or without need of one. -/
theorem dropBreak_write {cs body rest : List Char}
    (h : cs.contains '\n' = false → ∀ c ∈ (body ++ rest).head?, c ≠ '\n' ∧ c ≠ '\r') :
    dropBreak ((if cs.contains '\n' then ['\n'] else []) ++ body ++ rest) = body ++ rest := by
  split_ifs with hn
  · rfl
  · rw [List.nil_append]
    have hh := h (Bool.eq_false_iff.2 hn)
    cases he : body ++ rest with
    | nil => rfl
    | cons c cs =>
      rw [he] at hh
      obtain ⟨h1, h2⟩ := hh c rfl
      simp [dropBreak, h1, h2]

theorem head?_basicLinesBody {cs rest : List Char} (hn : cs.contains '\n' = false) :
    ∀ c ∈ (basicLinesBody 0 cs ++ '"' :: rest).head?, c ≠ '\n' ∧ c ≠ '\r' := by
  cases cs with
  | nil =>
    rintro c ⟨⟩
    decide
  | cons d cs =>
    have hd : d ≠ '\n' := by
      rintro rfl
      simp at hn
    rw [basicLinesBody]
    split_ifs with hq h2
    · cases h2
    · rintro c ⟨⟩
      decide
    · obtain ⟨l, he, -⟩ | ⟨he, hp, -⟩ | ⟨a, b, he, -⟩ := escape_cases d
      · rw [he]
        rintro c ⟨⟩
        decide
      · rw [he]
        rintro c ⟨⟩
        exact ne_of_isPlain hp
      · rw [he]
        rintro c ⟨⟩
        decide

/-- Whether quotes can be put around a text: where nothing is escaped, nothing may need it. -/
def Fits (q : Quote) (cs : List Char) : Prop := q = basic ∨ q = basicLines ∨ q.suits cs = true

theorem write_basic_append (cs rest : List Char) :
    basic.write cs ++ rest = '"' :: (basicBody cs ++ '"' :: rest) := by
  simp [write, marks, hasLines, body]

theorem write_literal_append (cs rest : List Char) : literal.write cs ++ rest = '\'' :: (cs ++ '\'' :: rest) := by
  simp [write, marks, hasLines, body]

theorem literal_suits_iff {cs : List Char} :
    literal.suits cs = true ↔ ∀ c ∈ cs, isPlain c = true ∧ c ≠ '\'' := by
  simp only [suits, List.all_eq_true, Bool.and_eq_true, decide_eq_true_eq]

theorem read?_write {q : Quote} {cs rest : List Char} (hf : q.Fits cs) (h : Quiet rest) :
    read? (q.write cs ++ rest) = some (cs, rest) := by
  cases q with
  | basic =>
    have hb := basic?_basicBody cs [] rest
    rw [write_basic_append]
    refine Eq.trans ?_ hb
    -- no second and third quote follow the first
    cases cs with
    | nil =>
      cases rest with
      | nil => rfl
      | cons d rest => simp [read?, basicBody, (h d rfl).1]
    | cons c cs =>
      obtain ⟨d, ds, he, hd⟩ := basicBody_cons c cs
      rw [he]
      simp [read?, hd]
  | literal =>
    have hs := literal_suits_iff.1 (by simpa [Fits] using hf)
    have hl := literal?_append [] rest hs
    rw [write_literal_append]
    refine Eq.trans ?_ hl
    cases cs with
    | nil =>
      cases rest with
      | nil => rfl
      | cons d rest => simp [read?, (h d rfl).2]
    | cons c cs => simp [read?, (hs c List.mem_cons_self).2]
  | basicLines =>
    have hb := basicLines?_basicLinesBody cs (Nat.zero_le 2) h []
    have hw : basicLines.write cs ++ rest = '"' :: '"' :: '"' ::
        ((if cs.contains '\n' then ['\n'] else []) ++ basicLinesBody 0 cs ++ '"' :: '"' :: '"' :: rest) := by
      simp [write, marks, hasLines, body]
    rw [hw, read?, dropBreak_write head?_basicLinesBody]
    exact hb
  | literalLines =>
    have hs : literalLines.suits cs = true := by simpa [Fits] using hf
    simp only [suits, Bool.and_eq_true, List.all_eq_true, Bool.or_eq_true, decide_eq_true_eq,
      Bool.not_eq_true'] at hs
    have hl := literalLines?_append (Nat.zero_le 2) hs.1 hs.2 h []
    have hw : literalLines.write cs ++ rest = '\'' :: '\'' :: '\'' ::
        ((if cs.contains '\n' then ['\n'] else []) ++ cs ++ '\'' :: '\'' :: '\'' :: rest) := by
      simp [write, marks, hasLines, body]
    rw [hw, read?, dropBreak_write]
    · exact hl
    · intro hn
      cases cs with
      | nil =>
        rintro c ⟨⟩
        decide
      | cons d cs =>
        rintro c ⟨⟩
        rcases hs.1 d List.mem_cons_self with hp | rfl
        · exact ne_of_isPlain hp
        · simp at hn

theorem fits_ofText (cs : List Char) : (ofText cs).Fits cs := by
  unfold ofText
  cases hf : [basic, literal, basicLines, literalLines].find? (·.suits cs) with
  | some q =>
    have hs := List.find?_some hf
    exact .inr (.inr hs)
  | none =>
    rw [Option.getD_none]
    split_ifs
    · exact .inr (.inl rfl)
    · exact .inl rfl

theorem ofKey_cases (cs : List Char) : ofKey cs = basic ∨ ofKey cs = literal ∧ literal.suits cs = true := by
  unfold ofKey
  simp only [List.find?_cons, List.find?_nil]
  cases basic.suits cs with
  | true => exact .inl rfl
  | false =>
    cases hl : literal.suits cs with
    | true => exact .inr ⟨rfl, rfl⟩
    | false => exact .inl rfl

end BracketTree.Toml.Quote
