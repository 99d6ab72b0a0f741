import BracketTree.Proofs.CharRun
import BracketTree.Proofs.JsonRoundTrip
import BracketTree.Text.Quoted

/-! Quoted texts can be told apart. How a character is written between quotes shows which one it is and where it ends,
so no two texts have the same quoted form; and no quoted form holds a line break. -/

namespace BracketTree

/-- Whether the code of an item shows which item it is and where it ends, whatever follows. -/
def Delimited {α β : Type} (f : α → List β) (a : α) : Prop := ∀ b s t, f a ++ s = f b ++ t → a = b ∧ s = t

section
variable {α β : Type} {f : α → List β} {as bs : List α} {s t : List β}

theorem delimited_of_read {read? : List β → Option (α × List β)} (h : ∀ a s, read? (f a ++ s) = some (a, s)) (a : α) :
    Delimited f a := by
  intro b s t he
  have hread := h a s
  rw [he, h b t] at hread
  obtain ⟨rfl, rfl⟩ := Prod.mk.inj (Option.some.inj hread)
  exact ⟨rfl, rfl⟩

/-- Codes in a row show which items they are, up to where no code begins. -/
theorem flatMap_append_inj (h : ∀ a ∈ as, Delimited f a) (hs : ∀ b u, s ≠ f b ++ u) (ht : ∀ a u, t ≠ f a ++ u)
    (he : as.flatMap f ++ s = bs.flatMap f ++ t) : as = bs ∧ s = t := by
  induction as generalizing bs with
  | nil =>
    cases bs with
    | nil => exact ⟨rfl, he⟩
    | cons b bs =>
      rw [List.flatMap_cons, List.append_assoc] at he
      exact absurd he (hs b _)
  | cons a as ih =>
    cases bs with
    | nil =>
      rw [List.flatMap_cons, List.append_assoc] at he
      exact absurd he.symm (ht a _)
    | cons b bs =>
      rw [List.flatMap_cons, List.flatMap_cons, List.append_assoc, List.append_assoc] at he
      obtain ⟨rfl, hrest⟩ := h a List.mem_cons_self b _ _ he
      obtain ⟨rfl, hst⟩ := ih (fun c hc => h c (List.mem_cons_of_mem a hc)) hrest
      exact ⟨rfl, hst⟩

theorem flatMap_inj (h : ∀ a, Delimited f a) (hne : ∀ a, f a ≠ []) (he : as.flatMap f = bs.flatMap f) : as = bs := by
  have hnil : ∀ a u, [] ≠ f a ++ u := fun a u hu => hne a (List.append_eq_nil_iff.1 hu.symm).1
  exact (flatMap_append_inj (fun a _ => h a) hnil hnil (congrArg (· ++ []) he)).1

end

namespace Text

theorem hexNumber?_concat (cs : List Char) (c : Char) :
    hexNumber? (cs ++ [c]) = (hexNumber? cs).bind fun n => (hexDigit? c).map (16 * n + ·) := by
  unfold hexNumber?
  rw [List.foldlM_append]
  simp

theorem hexNumber?_toDigits (n : Nat) : hexNumber? (Nat.toDigits 16 n) = some n := by
  induction n using Nat.strongRecOn with
  | _ n ih =>
    by_cases h : n < 16
    · rw [Nat.toDigits_of_lt_base h]
      simp [hexNumber?, hexDigit?_digitChar n h]
    · rw [Nat.toDigits_of_base_le (by decide) (by omega), hexNumber?_concat, ih (n / 16) (by omega),
        hexDigit?_digitChar _ (Nat.mod_lt n (by decide))]
      simp only [Option.bind_some, Option.map_some, Option.some.injEq]
      omega

theorem exists_digitChar_of_mem {n : Nat} {c : Char} (h : c ∈ Nat.toDigits 16 n) :
    ∃ d, d < 16 ∧ c = Nat.digitChar d := by
  induction n using Nat.strongRecOn with
  | _ n ih =>
    by_cases hn : n < 16
    · rw [Nat.toDigits_of_lt_base hn] at h
      exact ⟨n, hn, List.mem_singleton.1 h⟩
    · rw [Nat.toDigits_of_base_le (by decide) (by omega)] at h
      rcases List.mem_append.1 h with h | h
      · exact ih (n / 16) (by omega) h
      · exact ⟨n % 16, Nat.mod_lt n (by decide), List.mem_singleton.1 h⟩

/-- No mark of a quoted form is a hexadecimal digit. -/
theorem ne_of_mem_toDigits {n : Nat} {c : Char} (h : c ∈ Nat.toDigits 16 n) : c ≠ '\x7d' ∧ c ≠ '\n' := by
  obtain ⟨d, hd, rfl⟩ := exists_digitChar_of_mem h
  have hall : ∀ d, d < 16 → Nat.digitChar d ≠ '\x7d' ∧ Nat.digitChar d ≠ '\n' := by decide
  exact hall d hd

/-- The character that a backslash and a letter stand for. -/
def named? : Char → Option Char
  | '0' => some '\x00'
  | 't' => some '\t'
  | 'r' => some '\r'
  | 'n' => some '\n'
  | '"' => some '"'
  | '\\' => some '\\'
  | _ => none

/-- The first character that is written between quotes, and what follows. -/
def unquoteChar? : List Char → Option (Char × List Char)
  | [] => none
  | '\\' :: 'u' :: '\x7b' :: cs =>
    (hexNumber? (cs.takeWhile (· ≠ '\x7d'))).map fun n => (Char.ofNat n, (cs.dropWhile (· ≠ '\x7d')).tail)
  | '\\' :: c :: cs => (named? c).map (·, cs)
  | c :: cs => some (c, cs)

theorem unquoteChar?_letter {l e : Char} (he : named? l = some e) (hl : l ≠ 'u') (cs : List Char) :
    unquoteChar? ('\\' :: l :: cs) = some (e, cs) := by
  simp [unquoteChar?, he, hl]

theorem unquoteChar?_plain {c : Char} (h : c ≠ '\\') (cs : List Char) : unquoteChar? (c :: cs) = some (c, cs) := by
  simp [unquoteChar?, h]

theorem unquoteChar?_code (c : Char) (cs : List Char) :
    unquoteChar? (['\\', 'u', '\x7b'] ++ Nat.toDigits 16 c.toNat ++ ['\x7d'] ++ cs) = some (c, cs) := by
  have hd : ∀ d ∈ Nat.toDigits 16 c.toNat, decide (d ≠ '\x7d') = true :=
    fun d hd => decide_eq_true (ne_of_mem_toDigits hd).1
  have hend : Ends (· ≠ '\x7d') ('\x7d' :: cs) := ends_cons (by decide) cs
  simp only [List.cons_append, List.nil_append, List.append_assoc, unquoteChar?]
  rw [takeWhile_run hd hend, dropWhile_run hd hend, hexNumber?_toDigits, Option.map_some, Char.ofNat_toNat,
    List.tail_cons]

theorem unquoteChar?_append (c : Char) (cs : List Char) : unquoteChar? (quotedChar c ++ cs) = some (c, cs) := by
  unfold quotedChar
  split_ifs with h1 h2 h3 h4 h5 h6 h7
  · subst h1; exact unquoteChar?_letter rfl (by decide) cs
  · subst h2; exact unquoteChar?_letter rfl (by decide) cs
  · subst h3; exact unquoteChar?_letter rfl (by decide) cs
  · subst h4; exact unquoteChar?_letter rfl (by decide) cs
  · subst h5; exact unquoteChar?_letter rfl (by decide) cs
  · subst h6; exact unquoteChar?_letter rfl (by decide) cs
  · exact unquoteChar?_plain h6 cs
  · exact unquoteChar?_code c cs

theorem delimited_quotedChar (c : Char) : Delimited quotedChar c := delimited_of_read unquoteChar?_append c

theorem quotedChar_ne_nil (c : Char) : quotedChar c ≠ [] := by
  intro h
  have hread := unquoteChar?_append c []
  rw [h] at hread
  cases hread

theorem toList_quoted (s : String) : (quoted s).toList = '"' :: (s.toList.flatMap quotedChar ++ ['"']) :=
  String.toList_ofList

theorem quoted_ne_ofList (s : String) {c : Char} (hc : '"' ≠ c) (cs : List Char) :
    quoted s ≠ String.ofList (c :: cs) := by
  intro h
  have hchars := congrArg String.toList h
  rw [toList_quoted, String.toList_ofList] at hchars
  exact hc (List.cons.inj hchars).1

theorem quoted_inj {s t : String} (h : quoted s = quoted t) : s = t := by
  have hchars := congrArg String.toList h
  rw [toList_quoted, toList_quoted] at hchars
  have hbody := List.append_cancel_right (List.cons.inj hchars).2
  exact String.toList_injective (flatMap_inj delimited_quotedChar quotedChar_ne_nil hbody)

theorem line_break_not_mem_quotedChar (c : Char) : '\n' ∉ quotedChar c := by
  unfold quotedChar
  split_ifs with h1 h2 h3 h4 h5 h6 h7
  · decide
  · decide
  · decide
  · decide
  · decide
  · decide
  · exact fun h => h4 (List.mem_singleton.1 h).symm
  · intro h
    rcases List.mem_append.1 h with h | h
    · rcases List.mem_append.1 h with h | h
      · exact absurd h (by decide)
      · exact (ne_of_mem_toDigits h).2 rfl
    · exact absurd h (by decide)

theorem line_break_not_mem_quoted (s : String) : '\n' ∉ (quoted s).toList := by
  rw [toList_quoted]
  intro h
  rcases List.mem_cons.1 h with h | h
  · exact absurd h (by decide)
  · rcases List.mem_append.1 h with h | h
    · obtain ⟨c, -, hc⟩ := List.mem_flatMap.1 h
      exact line_break_not_mem_quotedChar c hc
    · exact absurd h (by decide)

end Text
end BracketTree
