import BracketTree.Toml.Printer
import BracketTree.Proofs.CharRun
import BracketTree.Proofs.TomlQuotes
import Mathlib.Data.List.TakeDrop

/-! What the writer writes is read back as a document: a key as its name, a list as an array of its texts, and each
line as one entry. The fuel of a reader is used up by one for each item, entry or section, so it is enough that there
is more of it than there are of those. -/

namespace BracketTree.Toml
open Text (Ends)

/-! Keys. -/

/-- Whether a key that is written can begin with a character. -/
def BeginsKey (c : Char) : Prop := isBareChar c = true ∨ c = '"' ∨ c = '\''

theorem BeginsKey.ne {c d : Char} (h : BeginsKey c) (h1 : isBareChar d = false) (h2 : d ≠ '"') (h3 : d ≠ '\'') :
    c ≠ d := by
  rintro rfl
  rcases h with h | h | h
  · rw [h1] at h
    cases h
  · exact h2 h
  · exact h3 h

theorem Quote.write_cons (q : Quote) (cs : List Char) :
    ∃ c ds, q.write cs = c :: ds ∧ (c = '"' ∨ c = '\'') := by
  cases q with
  | basic => exact ⟨_, _, rfl, .inl rfl⟩
  | literal => exact ⟨_, _, rfl, .inr rfl⟩
  | basicLines => exact ⟨_, _, rfl, .inl rfl⟩
  | literalLines => exact ⟨_, _, rfl, .inr rfl⟩

theorem writeKey_cases (name : String) :
    (∃ c cs, name.toList = c :: cs ∧ writeKey name = c :: cs ∧ ∀ d ∈ c :: cs, isBareChar d = true) ∨
      writeKey name = (Quote.ofKey name.toList).write name.toList := by
  rw [writeKey]
  split_ifs with h
  · simp only [Bool.and_eq_true, Bool.not_eq_true', List.isEmpty_eq_false_iff, List.all_eq_true] at h
    obtain ⟨c, cs, hc⟩ := List.exists_cons_of_ne_nil h.1
    rw [hc] at h ⊢
    exact .inl ⟨c, cs, rfl, rfl, h.2⟩
  · exact .inr rfl

theorem writeKey_cons (name : String) : ∃ c cs, writeKey name = c :: cs ∧ BeginsKey c := by
  obtain ⟨c, cs, -, he, hb⟩ | he := writeKey_cases name
  · exact ⟨c, cs, he, .inl (hb c List.mem_cons_self)⟩
  · obtain ⟨c, cs, hw, hc⟩ := (Quote.ofKey name.toList).write_cons name.toList
    exact ⟨c, cs, he.trans hw, .inr hc⟩

section
variable {rest : List Char} {name : String}

theorem name?_bare {c : Char} {cs : List Char} (hb : ∀ d ∈ c :: cs, isBareChar d = true)
    (h : Ends isBareChar rest) : name? (c :: cs ++ rest) = some (String.ofList (c :: cs), rest) := by
  have hspan : (c :: cs ++ rest).span isBareChar = (c :: cs, rest) := by
    rw [List.span_eq_takeWhile_dropWhile, Text.takeWhile_run hb h, Text.dropWhile_run hb h]
  have hc : isBareChar c = true := hb c List.mem_cons_self
  have h1 : c ≠ '"' := by rintro rfl; cases hc
  have h2 : c ≠ '\'' := by rintro rfl; cases hc
  rw [List.cons_append] at hspan ⊢
  rw [name?, hspan]
  · rintro cs h
    exact absurd (List.cons.inj h).1 h1
  · rintro cs h
    exact absurd (List.cons.inj h).1 h2

theorem name?_writeKey (h : Ends isBareChar rest) : name? (writeKey name ++ rest) = some (name, rest) := by
  obtain ⟨c, cs, hn, he, hb⟩ | he := writeKey_cases name
  · rw [he, name?_bare hb h, ← hn, String.ofList_toList]
  · rw [he]
    obtain hq | ⟨hq, hs⟩ := Quote.ofKey_cases name.toList
    · have hr := Quote.basic?_basicBody name.toList [] rest
      rw [hq, Quote.write_basic_append, name?, hr]
      simp
    · have hr := Quote.literal?_append [] rest (Quote.literal_suits_iff.1 hs)
      rw [hq, Quote.write_literal_append, name?, hr]
      simp

theorem key?_writeKey (h : Ends isBareChar rest) (hd : Ends (· = '.') (skipBlanks rest)) :
    key? (writeKey name ++ rest) = some (⟨[], name⟩, rest) := by
  rw [key?, nestingLimit, keyFrom, name?_writeKey h]
  cases hb : skipBlanks rest with
  | nil => simp [hb]
  | cons d ds =>
    rw [hb] at hd
    have hdot : d ≠ '.' := of_decide_eq_false (hd d rfl)
    simp [hb, hdot]

theorem skipBlanks_writeKey : skipBlanks (writeKey name ++ rest) = writeKey name ++ rest := by
  obtain ⟨c, cs, he, hc⟩ := writeKey_cons name
  have h1 : c ≠ ' ' := hc.ne (by decide) (by decide) (by decide)
  have h2 : c ≠ '\t' := hc.ne (by decide) (by decide) (by decide)
  rw [he, List.cons_append]
  exact Text.dropWhile_of_ends (Text.ends_cons (by simp [isBlank, h1, h2]) _)

/-! Values. -/

variable {size depth : Nat}

theorem skipTrivia?_cons {c : Char} {cs : List Char} (h : c ∉ ['\n', '\r', '#', ' ', '\t']) :
    skipTrivia? false (c :: cs) = some (c :: cs) := by
  simp only [List.mem_cons, List.not_mem_nil, or_false, not_or] at h
  simp [skipTrivia?, h]

theorem writeText_cons (t : String) : ∃ c cs, writeText t = c :: cs ∧ (c = '"' ∨ c = '\'') :=
  (Quote.ofText t.toList).write_cons t.toList

theorem value?_writeText (t : String) (h : Quote.Quiet rest) :
    value? size depth (writeText t ++ rest) = some (.string t, rest) := by
  have hr : Quote.read? (writeText t ++ rest) = some (t.toList, rest) :=
    Quote.read?_write (Quote.fits_ofText t.toList) h
  obtain ⟨c, cs, he, hc⟩ := writeText_cons t
  rw [he, List.cons_append] at hr ⊢
  rcases hc with rfl | rfl
  · simp [value?, hr]
  · simp [value?, hr]

theorem skipTrivia?_writeText (t : String) :
    skipTrivia? false (writeText t ++ rest) = some (writeText t ++ rest) := by
  obtain ⟨c, cs, he, hc⟩ := writeText_cons t
  rw [he]
  apply skipTrivia?_cons
  rcases hc with rfl | rfl <;> decide

section
variable {α : Type} {item : List Char → Option (α × List Char)} {close : Char} {acc : List α} {fuel : Nat}
  {cs next after : List Char} {c : Char} {x : α}

theorem itemsFrom_close (hs : skipTrivia? false cs = some (close :: rest)) :
    itemsFrom item close acc (fuel + 1) cs = some (acc.reverse, rest) := by
  simp [itemsFrom, hs]

theorem itemsFrom_comma (hs : skipTrivia? false cs = some (c :: next)) (hc : c ≠ close)
    (hi : item (c :: next) = some (x, after)) (ha : skipTrivia? false after = some (',' :: rest))
    (hcomma : ',' ≠ close) :
    itemsFrom item close acc (fuel + 1) cs = itemsFrom item close (x :: acc) fuel rest := by
  simp [itemsFrom, hs, hc, hi, ha, hcomma]

theorem itemsFrom_last (hs : skipTrivia? false cs = some (c :: next)) (hc : c ≠ close)
    (hi : item (c :: next) = some (x, after)) (ha : skipTrivia? false after = some (close :: rest)) :
    itemsFrom item close acc (fuel + 1) cs = some ((x :: acc).reverse, rest) := by
  simp [itemsFrom, hs, hc, hi, ha]

end

/-- A line of an array. -/
def itemLine (t : String) : List Char := [' ', ' ', ' ', ' '] ++ writeText t ++ [',', '\n']

theorem itemsFrom_itemLine {acc : List Value} {fuel : Nat} (t : String) :
    itemsFrom (value? size depth) ']' acc (fuel + 1) ('\n' :: (itemLine t ++ rest)) =
      itemsFrom (value? size depth) ']' (.string t :: acc) fuel ('\n' :: rest) := by
  obtain ⟨c, cs, he, hc⟩ := writeText_cons t
  have hv : value? size depth (writeText t ++ ',' :: '\n' :: rest) = _ :=
    value?_writeText t (Quote.quiet_cons (by decide) (by decide) _)
  have hs : skipTrivia? false (writeText t ++ ',' :: '\n' :: rest) = _ := skipTrivia?_writeText t
  have hl : skipTrivia? false ('\n' :: (itemLine t ++ rest)) =
      skipTrivia? false (writeText t ++ ',' :: '\n' :: rest) := by
    simp [itemLine, skipTrivia?]
  rw [he, List.cons_append] at hv hs hl
  apply itemsFrom_comma (hl.trans hs) _ hv (skipTrivia?_cons (by decide)) (by decide)
  rcases hc with rfl | rfl <;> decide

theorem itemsFrom_itemLines {ts : List String} {acc : List Value} {fuel : Nat} (hf : ts.length < fuel) :
    itemsFrom (value? size depth) ']' acc fuel ('\n' :: (ts.flatMap itemLine ++ ']' :: rest)) =
      some (acc.reverse ++ ts.map .string, rest) := by
  induction ts generalizing acc fuel with
  | nil =>
    obtain ⟨fuel, rfl⟩ := Nat.exists_eq_add_one_of_ne_zero (Nat.ne_of_gt hf)
    rw [itemsFrom_close rfl, List.map_nil, List.append_nil]
  | cons t ts ih =>
    obtain ⟨fuel, rfl⟩ := Nat.exists_eq_add_one_of_ne_zero (Nat.ne_of_gt (Nat.zero_lt_of_lt hf))
    rw [List.flatMap_cons, List.append_assoc, itemsFrom_itemLine, ih (Nat.lt_of_succ_lt_succ hf)]
    simp

theorem value?_array {cs : List Char} {vs : List Value}
    (h : itemsFrom (value? size depth) ']' [] size cs = some (vs, rest)) :
    value? size (depth + 1) ('[' :: cs) = some (.array vs, rest) := by
  rw [value?, h]
  rfl

theorem value?_writeTexts {ts : List String} (hs : ts.length < size) :
    value? size (depth + 1) (writeTexts ts ++ rest) = some (.array (ts.map .string), rest) := by
  match ts with
  | [] =>
    obtain ⟨size, rfl⟩ := Nat.exists_eq_add_one_of_ne_zero (Nat.ne_of_gt hs)
    exact value?_array (itemsFrom_close rfl)
  | [t] =>
    obtain ⟨size, rfl⟩ := Nat.exists_eq_add_one_of_ne_zero (Nat.ne_of_gt (Nat.zero_lt_of_lt hs))
    obtain ⟨c, cs, he, hc⟩ := writeText_cons t
    have hv : value? (size + 1) depth (writeText t ++ ']' :: rest) = _ :=
      value?_writeText t (Quote.quiet_cons (by decide) (by decide) _)
    have ht : skipTrivia? false (writeText t ++ ']' :: rest) = _ := skipTrivia?_writeText t
    have hw : writeTexts [t] ++ rest = '[' :: (writeText t ++ ']' :: rest) := by simp [writeTexts]
    rw [hw]
    apply value?_array
    rw [he, List.cons_append] at hv ht ⊢
    apply itemsFrom_last ht _ hv (skipTrivia?_cons (by decide))
    rcases hc with rfl | rfl <;> decide
  | t :: u :: ts =>
    have hw : writeTexts (t :: u :: ts) = ['[', '\n'] ++ (t :: u :: ts).flatMap itemLine ++ [']'] := rfl
    rw [hw, List.append_assoc, List.append_assoc]
    exact value?_array (itemsFrom_itemLines hs)

/-! Lines. -/

theorem assignment?_writeKey {v : List Char} {x : Value} (hv : value? size nestingLimit v = some (x, rest))
    (hb : Ends isBlank v) :
    assignment? (fun cs => some (skipBlanks cs)) (value? size nestingLimit)
      (writeKey name ++ ' ' :: '=' :: ' ' :: v) = some ((⟨[], name⟩, x), rest) := by
  have hk : key? (writeKey name ++ ' ' :: '=' :: ' ' :: v) = some (⟨[], name⟩, ' ' :: '=' :: ' ' :: v) :=
    key?_writeKey (Text.ends_cons (by decide) _) (Text.ends_cons (by decide) _)
  have hb' : skipBlanks (' ' :: v) = v := Text.dropWhile_of_ends hb
  rw [assignment?, hk]
  change ((value? size nestingLimit (skipBlanks (' ' :: v))).bind fun r => some (((⟨[], name⟩ : Key), r.1), r.2)) = _
  rw [hb', hv]
  rfl

/-- An entry is read if its value is, whatever comes after its line. -/
theorem entriesFrom_writeEntry {acc : List (Key × Value)} {fuel : Nat} {v : List Char} {x : Value}
    (hv : value? size nestingLimit (v ++ '\n' :: rest) = some (x, '\n' :: rest))
    (hb : Ends isBlank (v ++ '\n' :: rest)) :
    entriesFrom size acc (fuel + 1) (writeEntry name v ++ rest) =
      entriesFrom size ((⟨[], name⟩, x) :: acc) fuel rest := by
  have hw : writeEntry name v ++ rest = writeKey name ++ ' ' :: '=' :: ' ' :: (v ++ '\n' :: rest) := by
    simp [writeEntry]
  have ha : assignment? _ _ (writeKey name ++ ' ' :: '=' :: ' ' :: (v ++ '\n' :: rest)) = _ :=
    assignment?_writeKey hv hb
  obtain ⟨c, cs, he, hc⟩ := writeKey_cons name
  have hs : c ∉ ['\n', '\r', '#', ' ', '\t'] := by
    intro hd
    simp only [List.mem_cons, List.not_mem_nil, or_false] at hd
    rcases hd with rfl | rfl | rfl | rfl | rfl <;> exact hc.ne (by decide) (by decide) (by decide) rfl
  have ho : c ≠ '[' := hc.ne (by decide) (by decide) (by decide)
  rw [he, List.cons_append] at ha
  rw [hw, he, List.cons_append, entriesFrom, skipTrivia?_cons hs]
  simp [ha, ho, lineEnd?]

theorem ends_writeText (t : String) : Ends isBlank (writeText t ++ rest) := by
  obtain ⟨c, cs, he, hc⟩ := writeText_cons t
  rw [he]
  apply Text.ends_cons
  rcases hc with rfl | rfl <;> decide

theorem ends_writeTexts (ts : List String) : Ends isBlank (writeTexts ts ++ rest) := by
  match ts with
  | [] => exact Text.ends_cons (by decide) _
  | [_] => exact Text.ends_cons (by decide) _
  | _ :: _ :: _ => exact Text.ends_cons (by decide) _

/-- Names with texts, each on a line. -/
def writePairs (es : List (String × String)) : List Char := es.flatMap fun e => writeEntry e.1 (writeText e.2)

/-- A table of texts. -/
def textTable (es : List (String × String)) : Table := es.map fun e => (e.1, .string e.2)

/-- A table as entries by plain names. -/
def plainEntries (t : Table) : List (Key × Value) := t.map fun e => (⟨[], e.1⟩, e.2)

theorem entriesFrom_writePairs {es : List (String × String)} {acc : List (Key × Value)} {fuel : Nat}
    (hf : es.length < fuel) :
    entriesFrom size acc fuel (writePairs es) = some (acc.reverse ++ plainEntries (textTable es), []) := by
  induction es generalizing acc fuel with
  | nil =>
    obtain ⟨fuel, rfl⟩ := Nat.exists_eq_add_one_of_ne_zero (Nat.ne_of_gt hf)
    simp [writePairs, textTable, plainEntries, entriesFrom, skipTrivia?]
  | cons e es ih =>
    obtain ⟨fuel, rfl⟩ := Nat.exists_eq_add_one_of_ne_zero (Nat.ne_of_gt (Nat.zero_lt_of_lt hf))
    have hv : value? size nestingLimit (writeText e.2 ++ '\n' :: writePairs es) = _ :=
      value?_writeText e.2 (Quote.quiet_cons (by decide) (by decide) _)
    have hw : writePairs (e :: es) = writeEntry e.1 (writeText e.2) ++ writePairs es := List.flatMap_cons
    rw [hw, entriesFrom_writeEntry hv (ends_writeText e.2), ih (Nat.lt_of_succ_lt_succ hf)]
    simp [textTable, plainEntries]

theorem entriesFrom_writeTexts {acc : List (Key × Value)} {fuel : Nat} {ts : List String} (hs : ts.length < size) :
    entriesFrom size acc (fuel + 1) (writeEntry name (writeTexts ts) ++ rest) =
      entriesFrom size ((⟨[], name⟩, .array (ts.map .string)) :: acc) fuel rest :=
  entriesFrom_writeEntry (value?_writeTexts hs) (ends_writeTexts ts)

/-- Entries end at a heading, before which a line may be left empty. -/
theorem entriesFrom_heading {acc : List (Key × Value)} {fuel : Nat} :
    entriesFrom size acc (fuel + 1) ('\n' :: '[' :: rest) = some (acc.reverse, '[' :: rest) := by
  simp [entriesFrom, skipTrivia?]

theorem heading?_writeKey :
    heading? ('[' :: (writeKey name ++ ']' :: '\n' :: rest)) = some (⟨⟨[], name⟩, false, []⟩, rest) := by
  have hk : key? (skipBlanks (writeKey name ++ ']' :: '\n' :: rest)) = some (⟨[], name⟩, ']' :: '\n' :: rest) := by
    rw [skipBlanks_writeKey]
    exact key?_writeKey (Text.ends_cons (by decide) _) (Text.ends_cons (by decide) _)
  obtain ⟨c, cs, he, hc⟩ := writeKey_cons name
  have ho : c ≠ '[' := hc.ne (by decide) (by decide) (by decide)
  rw [he, List.cons_append] at hk ⊢
  rw [heading?, hk]
  · rfl
  · rintro cs' h
    exact absurd (List.cons.inj h).1 ho

end

/-! There is fuel enough. -/

theorem length_le_length_flatMap {α : Type} {f : α → List Char} (hf : ∀ x, f x ≠ []) (xs : List α) :
    xs.length ≤ (xs.flatMap f).length := by
  induction xs with
  | nil => exact Nat.zero_le _
  | cons x xs ih =>
    have := List.length_pos_iff.2 (hf x)
    rw [List.flatMap_cons, List.length_append, List.length_cons]
    omega

theorem length_le_length_writeTexts (ts : List String) : ts.length ≤ (writeTexts ts).length := by
  match ts with
  | [] => exact Nat.zero_le _
  | [_] => exact Nat.succ_le_succ (Nat.zero_le _)
  | t :: u :: ts =>
    have hl : (t :: u :: ts).length ≤ ((t :: u :: ts).flatMap itemLine).length :=
      length_le_length_flatMap (fun _ h => List.cons_ne_nil _ _ h) _
    have hw : writeTexts (t :: u :: ts) = ['[', '\n'] ++ (t :: u :: ts).flatMap itemLine ++ [']'] := rfl
    rw [hw, List.length_append, List.length_append]
    omega

theorem length_writeEntry_le (name : String) (v : List Char) : v.length ≤ (writeEntry name v).length := by
  rw [writeEntry, List.length_append, List.length_append]
  omega

theorem length_le_length_writePairs (es : List (String × String)) : es.length ≤ (writePairs es).length := by
  apply length_le_length_flatMap
  intro e h
  exact List.append_ne_nil_of_right_ne_nil _ (List.cons_ne_nil _ _) h

/-! A document of two lists and a table of texts. -/

section
variable (a b name : String) (xs ys : List String) (es : List (String × String))

def writeSection : List Char := '[' :: (writeKey name ++ ']' :: '\n' :: writePairs es)

def writeLists : List Char :=
  writeEntry a (writeTexts xs) ++ (writeEntry b (writeTexts ys) ++ '\n' :: writeSection name es)

variable {xs ys es} {size fuel : Nat}

theorem entriesFrom_writeLists (hx : xs.length < size) (hy : ys.length < size) :
    entriesFrom size [] (fuel + 3) (writeLists a b name xs ys es) =
      some (plainEntries [(a, .array (xs.map .string)), (b, .array (ys.map .string))], writeSection name es) := by
  rw [writeLists, entriesFrom_writeTexts hx, entriesFrom_writeTexts hy, writeSection, entriesFrom_heading]
  rfl

theorem sectionsFrom_writeSection (he : es.length < size) :
    sectionsFrom size [] (fuel + 2) (writeSection name es) =
      some [⟨⟨[], name⟩, false, plainEntries (textTable es)⟩] := by
  have hp : entriesFrom size [] size (writePairs es) = some (plainEntries (textTable es), []) :=
    entriesFrom_writePairs he
  rw [writeSection, sectionsFrom, heading?_writeKey]
  · change (entriesFrom size [] size (writePairs es)).bind
      (fun r => sectionsFrom size [⟨⟨[], name⟩, false, r.1⟩] (fuel + 1) r.2) = _
    rw [hp]
    rfl
  · exact List.cons_ne_nil _ _

theorem ofChars?_writeLists :
    Document.ofChars? (writeLists a b name xs ys es) =
      some ⟨plainEntries [(a, .array (xs.map .string)), (b, .array (ys.map .string))],
        [⟨⟨[], name⟩, false, plainEntries (textTable es)⟩]⟩ := by
  have hlen : xs.length + ys.length + es.length + 2 ≤ (writeLists a b name xs ys es).length := by
    have h1 := length_le_length_writeTexts xs
    have h2 := length_le_length_writeTexts ys
    have h3 := length_le_length_writePairs es
    have h4 := length_writeEntry_le a (writeTexts xs)
    have h5 := length_writeEntry_le b (writeTexts ys)
    rw [writeLists, writeSection, List.length_append, List.length_append, List.length_cons, List.length_cons,
      List.length_append, List.length_cons, List.length_cons]
    omega
  obtain ⟨fuel, hfuel⟩ : ∃ n, (writeLists a b name xs ys es).length = n + 2 :=
    ⟨_, (Nat.sub_add_cancel (Nat.le_trans (Nat.le_add_left _ _) hlen)).symm⟩
  rw [Document.ofChars?, hfuel, entriesFrom_writeLists a b name (by omega) (by omega)]
  change (sectionsFrom (fuel + 3) [] (fuel + 1 + 2) (writeSection name es)).bind _ = _
  rw [sectionsFrom_writeSection name (by omega)]
  rfl

/-- No byte order mark is written. -/
theorem read?_writeLists :
    Document.read? (String.ofList (writeLists a b name xs ys es)) =
      some ⟨plainEntries [(a, .array (xs.map .string)), (b, .array (ys.map .string))],
        [⟨⟨[], name⟩, false, plainEntries (textTable es)⟩]⟩ := by
  obtain ⟨c, cs, he, hc⟩ := writeKey_cons a
  have hbom : c ≠ '\ufeff' := hc.ne (by decide) (by decide) (by decide)
  have hw : ∃ ds, writeLists a b name xs ys es = c :: ds := ⟨_, by rw [writeLists, writeEntry, he]; rfl⟩
  obtain ⟨ds, hw⟩ := hw
  rw [← ofChars?_writeLists, Document.read?, String.toList_ofList, hw]
  split
  · rename_i h
    exact absurd (List.cons.inj h).1 hbom
  · rfl

end

/-! Tables. -/

namespace Table

theorem assignAll_plainEntries {es t : Table} (h : (t ++ es).Pairwise fun a b => a.1 ≠ b.1) :
    assignAll (plainEntries es) t = some (t ++ es) := by
  induction es generalizing t with
  | nil => simp [plainEntries, assignAll]
  | cons e es ih =>
    have hl : t.lookup e.1 = none := by
      rw [List.lookup_eq_none_iff]
      intro d hd
      have := (List.pairwise_append.1 h).2.2 d hd e List.mem_cons_self
      simpa using this.symm
    rw [List.append_cons] at h
    have ha : assign e.2 e.1 [] t = some (t ++ [e]) := by simp [assign, hl]
    change (assign e.2 e.1 [] t >>= assignAll (plainEntries es)) = _
    rw [ha]
    change assignAll (plainEntries es) (t ++ [e]) = _
    rw [ih h, ← List.append_cons]

end Table

theorem table?_plainEntries {t u : Table} {name : String} (ht : t.Pairwise fun a b => a.1 ≠ b.1)
    (hu : u.Pairwise fun a b => a.1 ≠ b.1) (hn : t.lookup name = none) :
    Document.table? ⟨plainEntries t, [⟨⟨[], name⟩, false, plainEntries u⟩]⟩ =
      some (t ++ [(name, .table .heading u)]) := by
  have hat : Table.assignAll (plainEntries t) [] = some t := Table.assignAll_plainEntries ht
  have hau : Table.assignAll (plainEntries u) [] = some u := Table.assignAll_plainEntries hu
  have hp : Table.place (Table.assignAll (plainEntries u)) name false [] t =
      some (t ++ [(name, .table .heading u)]) := by
    simp [Table.place, hn, hau]
  rw [Document.table?, hat]
  change (Table.place (Table.assignAll (plainEntries u)) name false [] t >>= fun t => some t) = _
  rw [hp]
  rfl

theorem Value.areSound_strings (ts : List String) : areSound (ts.map string) = true := by
  induction ts with
  | nil => rfl
  | cons t ts ih => simp [areSound, isSound, ih]

theorem Value.areSoundEntries_textTable (es : List (String × String)) : areSoundEntries (textTable es) = true := by
  induction es with
  | nil => rfl
  | cons e es ih => simpa [textTable, areSoundEntries, isSoundEntry, isSound] using ih

end BracketTree.Toml
