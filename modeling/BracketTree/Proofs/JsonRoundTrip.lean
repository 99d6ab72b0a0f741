import BracketTree.Proofs.JsonText

/-! What is written as JSON is read back. Only the spelling of strings can differ: a control character for which
there is no letter is written as a code, and read as one, which stands for the same text. The written form, in either
layout, is one of the texts that spell the value as it is read. -/

namespace BracketTree

theorem Text.hexDigit?_digitChar : ∀ d, d < 16 → Text.hexDigit? (Nat.digitChar d) = some d := by decide

namespace StringUnit

/-- A unit as it is read: a control character for which there is no letter comes back as a code. -/
def reread : StringUnit → StringUnit
  | code n => code n
  | char c => if c.toNat < 0x20 ∧ c ∉ ['\x08', '\t', '\n', '\x0c', '\r'] then code c.toNat else char c

/-- Whether a unit can be written: a code has 16 bits. -/
def Fits : StringUnit → Prop
  | code n => n < 0x10000
  | char _ => True

theorem hexNumber?_hex4 {n : Nat} (h : n < 0x10000) : Text.hexNumber? (hex4 n) = some n := by
  have hd : ∀ m, Text.hexDigit? (Nat.digitChar (m % 16)) = some (m % 16) :=
    fun m => Text.hexDigit?_digitChar _ (Nat.mod_lt _ (by decide))
  simp only [hex4, List.map_cons, List.map_nil, Text.hexNumber?, List.foldlM_cons, List.foldlM_nil, hd,
    Option.map_some, Option.bind_eq_bind, Option.bind_some, Option.pure_def, Option.some.injEq]
  omega

theorem chars?_code {n : Nat} (h : n < 0xd800) (us : List StringUnit) :
    chars? (code n :: us) = (chars? us).map (Char.ofNat n :: ·) := by
  have h1 : ¬ (0xd800 ≤ n ∧ n < 0xe000) := by omega
  have h2 : ¬ (0xd800 ≤ n ∧ n < 0xdc00) := by omega
  have h3 : ¬ (0xdc00 ≤ n ∧ n < 0xe000) := by omega
  cases us with
  | nil => simp [chars?, h1]
  | cons v us =>
    cases v with
    | char c => simp only [chars?, if_neg h1]
    | code m => rw [chars?, if_neg h2, if_neg h3]

theorem chars?_reread (cs : List Char) : chars? ((cs.map char).map reread) = some cs := by
  induction cs with
  | nil => rfl
  | cons c cs ih =>
    rw [List.map_cons, List.map_cons, reread]
    split_ifs with h
    · rw [chars?_code (by omega), ih, Char.ofNat_toNat]
      rfl
    · rw [chars?, ih]
      rfl

theorem text?_reread (s : String) : text? ((ofText s).map reread) = some s := by
  rw [text?, ofText, chars?_reread, Option.map_some, String.ofList_toList]

theorem fits_ofText (s : String) : ∀ u ∈ ofText s, u.Fits := by
  intro u hu
  obtain ⟨c, -, rfl⟩ := List.mem_map.1 hu
  trivial

end StringUnit

namespace Json
open StringUnit

/-! Strings. -/

theorem spells_reread {u : StringUnit} (h : u.Fits) : u.reread.Spells u.written := by
  cases u with
  | code n => exact .digits (hexNumber?_hex4 h)
  | char c =>
    rw [written]
    split_ifs with h1 h2 h3 h4 h5 h6 h7 h8
    · subst h1; exact .letter rfl
    · subst h2; exact .letter rfl
    · subst h3; exact .letter rfl
    · subst h4; exact .letter rfl
    · subst h5; exact .letter rfl
    · subst h6; exact .letter rfl
    · subst h7; exact .letter rfl
    · have hr : (char c).reread = code c.toNat := by simp [reread, h3, h4, h5, h6, h7, h8]
      rw [hr]
      exact .digits (hexNumber?_hex4 (by omega))
    · have hr : (char c).reread = char c := by simp [reread, h8]
      rw [hr]
      exact .plain h1 h2 h8

theorem spellsUnits_reread {us : List StringUnit} (h : ∀ u ∈ us, u.Fits) :
    SpellsUnits (us.map StringUnit.reread) (us.flatMap written) := by
  induction us with
  | nil => exact .nil
  | cons u us ih =>
    have hu := spells_reread (h u List.mem_cons_self)
    exact .cons hu (ih fun v hv => h v (List.mem_cons_of_mem u hv))

/-! The written form as characters. -/

/-- The characters of a line break, and of the blanks behind it. -/
def Layout.breakChars (l : Layout) (depth : Nat) : List Char :=
  match l with
  | compact => []
  | pretty => '\n' :: List.replicate (2 * depth) ' '

def quotedChars (us : List StringUnit) : List Char := '"' :: (us.flatMap written ++ ['"'])

mutual
def chars (l : Layout) (depth : Nat) : Json → List Char
  | null => ['n', 'u', 'l', 'l']
  | bool true => ['t', 'r', 'u', 'e']
  | bool false => ['f', 'a', 'l', 's', 'e']
  | number cs => cs
  | string us => quotedChars us
  | array [] => ['[', ']']
  | array (j :: js) =>
    '[' :: (l.breakChars (depth + 1) ++ (chars l (depth + 1) j ++ (itemChars l (depth + 1) js ++
      (l.breakChars depth ++ [']']))))
  | object [] => ['\x7b', '\x7d']
  | object (m :: ms) =>
    '\x7b' :: (memberChars l (depth + 1) m ++ (membersChars l (depth + 1) ms ++ (l.breakChars depth ++ ['\x7d'])))

def itemChars (l : Layout) (depth : Nat) : List Json → List Char
  | [] => []
  | j :: js => ',' :: (l.breakChars depth ++ (chars l depth j ++ itemChars l depth js))

def memberChars (l : Layout) (depth : Nat) : List StringUnit × Json → List Char
  | (k, j) => l.breakChars depth ++ (quotedChars k ++ (l.colon.toList ++ chars l depth j))

def membersChars (l : Layout) (depth : Nat) : List (List StringUnit × Json) → List Char
  | [] => []
  | m :: ms => ',' :: (memberChars l depth m ++ membersChars l depth ms)
end

theorem toList_newline (l : Layout) (depth : Nat) (acc : String) :
    (l.newline depth acc).toList = acc.toList ++ l.breakChars depth := by
  cases l with
  | compact => exact (List.append_nil _).symm
  | pretty => rw [Layout.newline, String.toList_append, String.toList_ofList]; rfl

theorem toList_writeString (acc : String) (us : List StringUnit) :
    (writeString acc us).toList = acc.toList ++ quotedChars us := by
  rw [writeString, String.toList_append, String.toList_ofList]
  rfl

mutual
theorem toList_write (l : Layout) (depth : Nat) (acc : String) :
    ∀ j, (write l depth acc j).toList = acc.toList ++ chars l depth j
  | null => by rw [write, String.toList_append]; rfl
  | bool true => by rw [write, String.toList_append]; rfl
  | bool false => by rw [write, String.toList_append]; rfl
  | number cs => by rw [write, String.toList_append, String.toList_ofList]; rfl
  | string us => by rw [write, toList_writeString]; rfl
  | array [] => by rw [write, String.toList_append]; rfl
  | array (j :: js) => by
    rw [write, String.toList_append, toList_newline, toList_writeItems, toList_write _ _ _ j, toList_newline,
      String.toList_append, chars]
    simp
  | object [] => by rw [write, String.toList_append]; rfl
  | object (m :: ms) => by
    rw [write, String.toList_append, toList_newline, toList_writeMembers, toList_writeMember _ _ _ m,
      String.toList_append, chars]
    simp

theorem toList_writeItems (l : Layout) (depth : Nat) (acc : String) :
    ∀ js, (writeItems l depth acc js).toList = acc.toList ++ itemChars l depth js
  | [] => (List.append_nil _).symm
  | j :: js => by
    rw [writeItems, toList_writeItems _ _ _ js, toList_write _ _ _ j, toList_newline, String.toList_append,
      itemChars]
    simp

theorem toList_writeMember (l : Layout) (depth : Nat) (acc : String) :
    ∀ m, (writeMember l depth acc m).toList = acc.toList ++ memberChars l depth m
  | (k, j) => by
    rw [writeMember, toList_write _ _ _ j, String.toList_append, toList_writeString, toList_newline, memberChars]
    simp

theorem toList_writeMembers (l : Layout) (depth : Nat) (acc : String) :
    ∀ ms, (writeMembers l depth acc ms).toList = acc.toList ++ membersChars l depth ms
  | [] => (List.append_nil _).symm
  | m :: ms => by
    rw [writeMembers, toList_writeMembers _ _ _ ms, toList_writeMember _ _ _ m, String.toList_append,
      membersChars]
    simp
end

mutual
/-- A value as it is read. -/
def reread : Json → Json
  | string us => string (us.map StringUnit.reread)
  | array js => array (rereadItems js)
  | object ms => object (rereadMembers ms)
  | j => j

def rereadItems : List Json → List Json
  | [] => []
  | j :: js => j.reread :: rereadItems js

def rereadMembers : List (List StringUnit × Json) → List (List StringUnit × Json)
  | [] => []
  | (k, j) :: ms => (k.map StringUnit.reread, j.reread) :: rereadMembers ms
end

/-- Whether a value can be written: its numbers are spelled as numbers, and its codes have 16 bits. -/
inductive Spelled : Json → Prop
  | null : Spelled null
  | bool (b : Bool) : Spelled (bool b)
  | number {cs : List Char} : isNumber cs = true → (∀ c ∈ cs, isNumberChar c = true) → Spelled (number cs)
  | string {us : List StringUnit} : (∀ u ∈ us, u.Fits) → Spelled (string us)
  | array {js : List Json} : (∀ j ∈ js, Spelled j) → Spelled (array js)
  | object {ms : List (List StringUnit × Json)} : (∀ m ∈ ms, ∀ u ∈ m.1, u.Fits) →
      (∀ m ∈ ms, Spelled m.2) → Spelled (object ms)

section
variable {ts : List Token} {rest : List Char} {l : Layout} {depth : Nat}

theorem ends_breakChars (h : Ends rest) : Ends (l.breakChars depth ++ rest) := by
  cases l with
  | compact => exact h
  | pretty => exact Text.ends_cons (by decide) _

theorem ends_itemChars (js : List Json) (h : Ends rest) : Ends (itemChars l depth js ++ rest) := by
  cases js with
  | nil => exact h
  | cons j js => exact Text.ends_cons (by decide) _

theorem ends_membersChars (ms : List (List StringUnit × Json)) (h : Ends rest) :
    Ends (membersChars l depth ms ++ rest) := by
  cases ms with
  | nil => exact h
  | cons m ms => exact Text.ends_cons (by decide) _

/-- A token with no blanks in front of it. -/
theorem Spaced.token {t : Token} {cs : List Char} (ht : t.Spells cs) (hend : t.EndsBefore rest) (h : Spaced ts rest) :
    Spaced (t :: ts) (cs ++ rest) := .cons (List.forall_mem_nil _) ht hend h

theorem Spaced.blanks {cs : List Char} (hc : ∀ c ∈ cs, isBlank c = true) (h : Spaced ts rest) :
    Spaced ts (cs ++ rest) := by
  cases h with
  | nil hrest => exact .nil fun c hmem => (List.mem_append.1 hmem).elim (hc c) (hrest c)
  | cons hblanks ht hend h =>
    rw [← List.append_assoc]
    exact .cons (fun c hmem => (List.mem_append.1 hmem).elim (hc c) (hblanks c)) ht hend h

theorem Spaced.breakChars (l : Layout) (depth : Nat) (h : Spaced ts rest) : Spaced ts (l.breakChars depth ++ rest) := by
  cases l with
  | compact => exact h
  | pretty => exact h.blanks (by simp [Layout.breakChars, isBlank])

theorem Spaced.colon (l : Layout) (h : Spaced ts rest) : Spaced (.colon :: ts) (l.colon.toList ++ rest) := by
  have hblank : ∀ c ∈ [' '], isBlank c = true := List.all_eq_true.1 (by decide)
  cases l with
  | compact => exact h.token .colon trivial
  | pretty =>
    have hcolon := (h.blanks hblank).token .colon trivial
    exact hcolon

theorem Spaced.quotedChars {us : List StringUnit} (hu : ∀ u ∈ us, u.Fits) (h : Spaced ts rest) :
    Spaced (.scalar (.string (us.map StringUnit.reread)) :: ts) (quotedChars us ++ rest) :=
  h.token (.string (spellsUnits_reread hu)) trivial

/-- Whether the characters of a value spell the tokens of what is read, whatever follows them. -/
def SpellsTokens (j : Json) : Prop :=
  ∀ (l : Layout) (depth : Nat) (ts : List Token) (rest : List Char), Ends rest → Spaced ts rest →
    Spaced (j.reread.tokens ++ ts) (chars l depth j ++ rest)

theorem Spaced.itemChars (l : Layout) (depth : Nat) {js : List Json} (hj : ∀ j ∈ js, SpellsTokens j) (hr : Ends rest)
    (h : Spaced ts rest) : Spaced (itemTokens (rereadItems js) ++ ts) (itemChars l depth js ++ rest) := by
  induction js with
  | nil => exact h
  | cons j js ih =>
    have hrest := ih fun k hk => hj k (List.mem_cons_of_mem j hk)
    have hitem := hj j List.mem_cons_self l depth _ _ (ends_itemChars js hr) hrest
    have hcomma := (hitem.breakChars l depth).token .comma trivial
    simpa [Json.itemChars, rereadItems, itemTokens] using hcomma

theorem Spaced.memberChars (l : Layout) (depth : Nat) {k : List StringUnit} {j : Json} (hk : ∀ u ∈ k, u.Fits)
    (hj : SpellsTokens j) (hr : Ends rest) (h : Spaced ts rest) :
    Spaced (memberTokens (k.map StringUnit.reread, j.reread) ++ ts) (memberChars l depth (k, j) ++ rest) := by
  have hcolon := (hj l depth ts rest hr h).colon l
  have hkey := (hcolon.quotedChars hk).breakChars l depth
  simpa [Json.memberChars, memberTokens] using hkey

theorem Spaced.membersChars (l : Layout) (depth : Nat) {ms : List (List StringUnit × Json)}
    (hk : ∀ m ∈ ms, ∀ u ∈ m.1, u.Fits) (hj : ∀ m ∈ ms, SpellsTokens m.2) (hr : Ends rest) (h : Spaced ts rest) :
    Spaced (membersTokens (rereadMembers ms) ++ ts) (membersChars l depth ms ++ rest) := by
  induction ms with
  | nil => exact h
  | cons m ms ih =>
    have hrest := ih (fun n hn => hk n (List.mem_cons_of_mem m hn)) fun n hn => hj n (List.mem_cons_of_mem m hn)
    have hmember := hrest.memberChars l depth (hk m List.mem_cons_self) (hj m List.mem_cons_self)
      (ends_membersChars ms hr)
    have hcomma := hmember.token .comma trivial
    simpa [Json.membersChars, rereadMembers, membersTokens] using hcomma

theorem Spelled.spellsTokens {j : Json} (h : Spelled j) : SpellsTokens j := by
  intro l depth ts rest hr hrest
  induction h generalizing l depth ts rest with
  | null => exact hrest.token .null trivial
  | bool b =>
    cases b with
    | true => exact hrest.token .yes trivial
    | false => exact hrest.token .no trivial
  | number hn hc => exact hrest.token (.number hn hc) hr
  | string hu => exact hrest.quotedChars hu
  | @array js _ ih =>
    have hclose := hrest.token .closeArray trivial
    cases js with
    | nil =>
      have hopen := hclose.token .openArray trivial
      exact hopen
    | cons j js =>
      have hend : Ends (l.breakChars depth ++ ([']'] ++ rest)) := ends_breakChars (Text.ends_cons (by decide) _)
      have hitems := (hclose.breakChars l depth).itemChars l (depth + 1)
        (fun k hk => ih k (List.mem_cons_of_mem j hk)) hend
      have hfirst := ih j List.mem_cons_self l (depth + 1) _ _ (ends_itemChars js hend) hitems
      have hopen := (hfirst.breakChars l (depth + 1)).token .openArray trivial
      simpa [chars, reread, rereadItems, tokens] using hopen
  | @object ms hk _ ih =>
    have hclose := hrest.token .closeObject trivial
    cases ms with
    | nil =>
      have hopen := hclose.token .openObject trivial
      exact hopen
    | cons m ms =>
      have hend : Ends (l.breakChars depth ++ (['\x7d'] ++ rest)) := ends_breakChars (Text.ends_cons (by decide) _)
      have hmembers := (hclose.breakChars l depth).membersChars l (depth + 1)
        (fun n hn => hk n (List.mem_cons_of_mem m hn)) (fun n hn => ih n (List.mem_cons_of_mem m hn)) hend
      have hfirst := hmembers.memberChars l (depth + 1) (hk m List.mem_cons_self) (ih m List.mem_cons_self)
        (ends_membersChars ms hend)
      have hopen := hfirst.token .openObject trivial
      simpa [chars, reread, rereadMembers, tokens] using hopen

end

/-- What is written of a value, in either layout and with blanks behind it at will, spells the value up to the spelling
of its strings. -/
theorem Spelled.spelledBy_render_append {j : Json} (h : Spelled j) (l : Layout) (blanks : String)
    (hb : ∀ c ∈ blanks.toList, isBlank c = true) : j.reread.SpelledBy (j.render l ++ blanks) := by
  have hchars : (j.render l).toList = chars l 0 j := toList_write l 0 "" j
  have hspaced := h.spellsTokens l 0 [] blanks.toList (ends_of_isBlank hb) (.nil hb)
  rw [List.append_nil] at hspaced
  rwa [SpelledBy, String.toList_append, hchars]

theorem Spelled.spelledBy_render {j : Json} (h : Spelled j) (l : Layout) : j.reread.SpelledBy (j.render l) := by
  have hnone := h.spelledBy_render_append l "" (List.forall_mem_nil _)
  rwa [String.append_empty] at hnone

/-- A value that is written in either layout is read as itself, up to the spelling of its strings. -/
theorem Spelled.read?_render_eq_reread {j : Json} (h : Spelled j) (l : Layout) :
    read? (j.render l) = some j.reread := (h.spelledBy_render l).read?_eq

/-! Values made of texts. -/

theorem spelled_ofText (t : String) : Spelled (ofText t) := .string (fits_ofText t)

theorem spelled_ofTexts (ts : List String) : Spelled (ofTexts ts) := by
  apply Spelled.array
  intro j hj
  obtain ⟨t, -, rfl⟩ := List.mem_map.1 hj
  exact spelled_ofText t

theorem spelled_members {α : Type} {es : List α} {key : α → String} {value : α → Json}
    (h : ∀ e ∈ es, (value e).Spelled) : Spelled (object (es.map fun e => member (key e) (value e))) := by
  apply Spelled.object
  · intro m hm
    obtain ⟨e, -, rfl⟩ := List.mem_map.1 hm
    exact fits_ofText (key e)
  · intro m hm
    obtain ⟨e, he, rfl⟩ := List.mem_map.1 hm
    exact h e he

theorem rereadItems_eq_map (js : List Json) : rereadItems js = js.map reread := by
  induction js with
  | nil => rfl
  | cons j js ih => rw [rereadItems, ih, List.map_cons]

theorem rereadMembers_eq_map (ms : List (List StringUnit × Json)) :
    rereadMembers ms = ms.map fun m => (m.1.map StringUnit.reread, m.2.reread) := by
  induction ms with
  | nil => rfl
  | cons m ms ih => rw [rereadMembers, ih, List.map_cons]

theorem text?_reread_ofText (t : String) : (ofText t).reread.text? = some t := StringUnit.text?_reread t

end Json
end BracketTree
