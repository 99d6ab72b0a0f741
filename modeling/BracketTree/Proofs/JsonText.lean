import BracketTree.Json.Reader
import BracketTree.Proofs.CharRun
import Mathlib.Tactic.SplitIfs

/-! Texts that spell a JSON value: its tokens in order, each in any of its spellings, with blanks around them at will.
Every such text is read as the value. First it is cut into its tokens, and then the machine puts the tokens together. -/

namespace BracketTree

/-- How a place in a string may be spelled: as it is, if it is no quote, no backslash and no control character; by a
backslash and a letter; or by the digits of its code. -/
inductive StringUnit.Spells : StringUnit → List Char → Prop
  | plain {c : Char} : c ≠ '"' → c ≠ '\\' → ¬ c.toNat < 0x20 → Spells (.char c) [c]
  | letter {l e : Char} : Json.escaped? l = some e → Spells (.char e) ['\\', l]
  | digits {a b c d : Char} {n : Nat} : Text.hexNumber? [a, b, c, d] = some n →
      Spells (.code n) ['\\', 'u', a, b, c, d]

namespace Json

/-- How the places of a string may be spelled one after the other. -/
inductive SpellsUnits : List StringUnit → List Char → Prop
  | nil : SpellsUnits [] []
  | cons {u : StringUnit} {us : List StringUnit} {cs ds : List Char} :
      u.Spells cs → SpellsUnits us ds → SpellsUnits (u :: us) (cs ++ ds)

/-- How a token may be spelled. -/
inductive Token.Spells : Token → List Char → Prop
  | openArray : Spells .openArray ['[']
  | closeArray : Spells .closeArray [']']
  | openObject : Spells .openObject ['\x7b']
  | closeObject : Spells .closeObject ['\x7d']
  | colon : Spells .colon [':']
  | comma : Spells .comma [',']
  | null : Spells (.scalar .null) ['n', 'u', 'l', 'l']
  | yes : Spells (.scalar (.bool true)) ['t', 'r', 'u', 'e']
  | no : Spells (.scalar (.bool false)) ['f', 'a', 'l', 's', 'e']
  | number {cs : List Char} : isNumber cs = true → (∀ c ∈ cs, isNumberChar c = true) →
      Spells (.scalar (.number cs)) cs
  | string {us : List StringUnit} {cs : List Char} : SpellsUnits us cs →
      Spells (.scalar (.string us)) ('"' :: (cs ++ ['"']))

/-- Where no number goes on. -/
def Ends (rest : List Char) : Prop := Text.Ends isNumberChar rest

/-- Whether a token ends in front of the rest: a number goes on as long as it can. -/
def Token.EndsBefore (rest : List Char) : Token → Prop
  | .scalar (.number _) => Ends rest
  | _ => True

def isBlank (c : Char) : Bool := c ∈ [' ', '\t', '\n', '\r']

theorem ends_of_isBlank {blanks : List Char} (h : ∀ c ∈ blanks, isBlank c = true) : Ends blanks := by
  cases blanks with
  | nil => exact Text.ends_nil
  | cons c cs =>
    have hc := h c List.mem_cons_self
    simp only [isBlank, List.mem_cons, List.not_mem_nil, or_false, decide_eq_true_eq] at hc
    rcases hc with rfl | rfl | rfl | rfl <;> exact Text.ends_cons (by decide) cs

/-- How tokens may be spelled one after the other, with blanks in front of each and behind the last. -/
inductive Spaced : List Token → List Char → Prop
  | nil {blanks : List Char} : (∀ c ∈ blanks, isBlank c = true) → Spaced [] blanks
  | cons {t : Token} {ts : List Token} {blanks cs rest : List Char} : (∀ c ∈ blanks, isBlank c = true) →
      t.Spells cs → t.EndsBefore rest → Spaced ts rest → Spaced (t :: ts) (blanks ++ (cs ++ rest))

/-! The tokens of a value. -/

mutual
def tokens : Json → List Token
  | array [] => [.openArray, .closeArray]
  | array (j :: js) => .openArray :: (j.tokens ++ (itemTokens js ++ [.closeArray]))
  | object [] => [.openObject, .closeObject]
  | object (m :: ms) => .openObject :: (memberTokens m ++ (membersTokens ms ++ [.closeObject]))
  | j => [.scalar j]

def itemTokens : List Json → List Token
  | [] => []
  | j :: js => .comma :: (j.tokens ++ itemTokens js)

def memberTokens : List StringUnit × Json → List Token
  | (k, j) => .scalar (.string k) :: .colon :: j.tokens

def membersTokens : List (List StringUnit × Json) → List Token
  | [] => []
  | m :: ms => .comma :: (memberTokens m ++ membersTokens ms)
end

/-- Whether a text spells a value. -/
def SpelledBy (j : Json) (text : String) : Prop := Spaced j.tokens text.toList

/-! Cutting into tokens. -/

section
variable {acc : List Token} {cs rest : List Char}

theorem string?_spells {u : StringUnit} {us : List StringUnit} (h : u.Spells cs) :
    string? us (cs ++ rest) = string? (u :: us) rest := by
  cases h with
  | plain hquote hbackslash hcontrol => simp [string?, hbackslash, hcontrol]
  | @letter l e he =>
    have hl : l ≠ 'u' := by
      rintro rfl
      cases he
    simp [string?, he, hl]
  | digits hn => simp [string?, hn]

theorem string?_spellsUnits {us vs : List StringUnit} (h : SpellsUnits us cs) :
    string? vs (cs ++ '"' :: rest) = some (vs.reverse ++ us, rest) := by
  induction h generalizing vs with
  | nil => simp [string?]
  | cons hu _ ih =>
    rw [List.append_assoc, string?_spells hu, ih]
    simp

theorem tokensFrom_blanks {blanks : List Char} (h : ∀ c ∈ blanks, isBlank c = true) :
    tokensFrom acc (blanks ++ rest) = tokensFrom acc rest := by
  induction blanks with
  | nil => rfl
  | cons c blanks ih =>
    have hc := h c List.mem_cons_self
    have hrest := ih fun d hd => h d (List.mem_cons_of_mem c hd)
    simp only [isBlank, List.mem_cons, List.not_mem_nil, or_false, decide_eq_true_eq] at hc
    rcases hc with rfl | rfl | rfl | rfl <;> rw [List.cons_append, tokensFrom, hrest]

theorem tokensFrom_string {us : List StringUnit} (h : SpellsUnits us cs) :
    tokensFrom acc ('"' :: (cs ++ ['"']) ++ rest) = tokensFrom (.scalar (.string us) :: acc) rest := by
  have hs : string? [] (cs ++ '"' :: rest) = some (us, rest) := string?_spellsUnits h
  rw [List.cons_append, List.append_assoc, List.singleton_append, tokensFrom]
  split
  · rename_i us' rest' he
    rw [hs] at he
    obtain ⟨rfl, rfl⟩ := Prod.mk.inj (Option.some.inj he)
    rfl
  · rename_i he
    rw [hs] at he
    cases he

theorem tokensFrom_number (hn : isNumber cs = true) (hc : ∀ c ∈ cs, isNumberChar c = true) (hr : Ends rest) :
    tokensFrom acc (cs ++ rest) = tokensFrom (.scalar (.number cs) :: acc) rest := by
  cases cs with
  | nil => cases hn
  | cons c cs =>
    have hc1 := hc c List.mem_cons_self
    have hcs : ∀ d ∈ cs, isNumberChar d = true := fun d hd => hc d (List.mem_cons_of_mem c hd)
    rw [List.cons_append, tokensFrom]
    · rw [Text.takeWhile_run hcs hr, Text.dropWhile_run hcs hr, if_pos hn]
    -- no number begins like another token
    all_goals
      intros
      subst_vars
      exact absurd hc1 (by decide)

theorem tokensFrom_spells {t : Token} (h : t.Spells cs) (hr : t.EndsBefore rest) :
    tokensFrom acc (cs ++ rest) = tokensFrom (t :: acc) rest := by
  cases h with
  | number hn hc => exact tokensFrom_number hn hc hr
  | string hu => exact tokensFrom_string hu
  | openArray => rw [List.singleton_append, tokensFrom]
  | closeArray => rw [List.singleton_append, tokensFrom]
  | openObject => rw [List.singleton_append, tokensFrom]
  | closeObject => rw [List.singleton_append, tokensFrom]
  | colon => rw [List.singleton_append, tokensFrom]
  | comma => rw [List.singleton_append, tokensFrom]
  | null => simp [tokensFrom]
  | yes => simp [tokensFrom]
  | no => simp [tokensFrom]

theorem Spaced.tokensFrom_eq {ts : List Token} (h : Spaced ts cs) (acc : List Token) :
    tokensFrom acc cs = some (acc.reverse ++ ts) := by
  induction h generalizing acc with
  | @nil blanks hblanks =>
    rw [← List.append_nil blanks, tokensFrom_blanks hblanks, tokensFrom, List.append_nil]
  | cons hblanks ht hend _ ih =>
    rw [tokensFrom_blanks hblanks, tokensFrom_spells ht hend, ih]
    simp

end

/-! The machine. -/

/-- The first item of an array is read like any value in it. -/
theorem foldlM_firstItem (j : Json) (outer : List Frame) :
    j.tokens.foldlM State.step (.firstItem outer) = j.tokens.foldlM State.step (.value (.array [] :: outer)) := by
  cases j with
  | array js => cases js <;> rfl
  | object ms => cases ms <;> rfl
  | null => rfl
  | bool b => rfl
  | number cs => rfl
  | string us => rfl

theorem foldlM_firstKey (m : List StringUnit × Json) (outer : List Frame) :
    (memberTokens m).foldlM State.step (.firstKey outer) =
      (memberTokens m).foldlM State.step (.key [] outer) := by
  obtain ⟨k, j⟩ := m
  rfl

mutual
theorem foldlM_tokens (outer : List Frame) :
    ∀ j : Json, j.tokens.foldlM State.step (.value outer) = some (State.give j outer)
  | null => rfl
  | bool _ => rfl
  | number _ => rfl
  | string _ => rfl
  | array [] => rfl
  | array (j :: js) => by
    change (j.tokens ++ (itemTokens js ++ [Token.closeArray])).foldlM State.step (.firstItem outer) = _
    rw [List.foldlM_append, foldlM_firstItem, foldlM_tokens _ j]
    change (itemTokens js ++ [Token.closeArray]).foldlM State.step (.afterItem [j] outer) = _
    rw [List.foldlM_append, foldlM_itemTokens _ _ js]
    simp [State.step]
  | object [] => rfl
  | object (m :: ms) => by
    change (memberTokens m ++ (membersTokens ms ++ [Token.closeObject])).foldlM State.step (.firstKey outer) = _
    rw [List.foldlM_append, foldlM_firstKey, foldlM_memberTokens _ _ m]
    change (membersTokens ms ++ [Token.closeObject]).foldlM State.step (.afterMember [m] outer) = _
    rw [List.foldlM_append, foldlM_membersTokens _ _ ms]
    simp [State.step]

theorem foldlM_itemTokens (items : List Json) (outer : List Frame) :
    ∀ js, (itemTokens js).foldlM State.step (.afterItem items outer) =
      some (.afterItem (js.reverse ++ items) outer)
  | [] => rfl
  | j :: js => by
    change (j.tokens ++ itemTokens js).foldlM State.step (.value (.array items :: outer)) = _
    rw [List.foldlM_append, foldlM_tokens _ j]
    change (itemTokens js).foldlM State.step (.afterItem (j :: items) outer) = _
    rw [foldlM_itemTokens _ _ js]
    simp

theorem foldlM_memberTokens (members : List (List StringUnit × Json)) (outer : List Frame) :
    ∀ m, (memberTokens m).foldlM State.step (.key members outer) = some (.afterMember (m :: members) outer)
  | (k, j) => by
    change j.tokens.foldlM State.step (.value (.member members k :: outer)) = _
    rw [foldlM_tokens _ j]
    rfl

theorem foldlM_membersTokens (members : List (List StringUnit × Json)) (outer : List Frame) :
    ∀ ms, (membersTokens ms).foldlM State.step (.afterMember members outer) =
      some (.afterMember (ms.reverse ++ members) outer)
  | [] => rfl
  | m :: ms => by
    change (memberTokens m ++ membersTokens ms).foldlM State.step (.key members outer) = _
    rw [List.foldlM_append, foldlM_memberTokens _ _ m]
    change (membersTokens ms).foldlM State.step (.afterMember (m :: members) outer) = _
    rw [foldlM_membersTokens _ _ ms]
    simp
end

/-- A text that spells a value is read as this value. -/
theorem SpelledBy.read?_eq {j : Json} {text : String} (h : j.SpelledBy text) : read? text = some j := by
  rw [read?, Spaced.tokensFrom_eq h]
  change (j.tokens.foldlM State.step (.value []) >>= _) = _
  rw [foldlM_tokens]
  rfl

end Json
end BracketTree
