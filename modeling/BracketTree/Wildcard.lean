/-! Patterns for file names. A question mark stands for any character, an asterisk for any characters, a set in
brackets for one character in it or, after an exclamation mark, for one not in it. Two asterisks stand for
directories inside one another, any number of them, and stand between slashes. -/

namespace BracketTree

namespace Wildcard

inductive Token where
  | char (c : Char)
  | anyChar
  | anyChars
  /-- Directories inside one another. -/
  | anyDepth
  /-- One character that lies in some range, or that lies in none. -/
  | set (ranges : List (Char × Char)) (negated : Bool)
deriving DecidableEq, Repr

inductive Flaw where
  | set
  | asterisks
  | depth
deriving DecidableEq, Repr

/-- What is wrong, and the number of characters before the place. -/
structure Error where
  position : Nat
  flaw : Flaw
deriving DecidableEq, Repr

def Flaw.message : Flaw → String
  | set => "invalid range pattern"
  | asterisks => "wildcards are either regular \x60*\x60 or recursive \x60**\x60"
  | depth => "recursive wildcards must form a single path component"

def Error.message (e : Error) : String :=
  "Pattern syntax error near position " ++ toString e.position ++ ": " ++ e.flaw.message

/-- The ranges of a set: a minus between two characters makes a range of them, and any other character is a
range of its own. -/
def ranges : List Char → List (Char × Char)
  | a :: '-' :: b :: cs => (a, b) :: ranges cs
  | c :: cs => (c, c) :: ranges cs
  | [] => []

def set? (first : Char) (cs : List Char) (negated : Bool) : Option Token :=
  if cs.contains ']' then some (.set (ranges (first :: cs.takeWhile (· ≠ ']'))) negated) else none

def afterSet (cs : List Char) : List Char := (cs.dropWhile (· ≠ ']')).tail

theorem length_afterSet (cs : List Char) : (afterSet cs).length ≤ cs.length := by
  have := (List.dropWhile_suffix (l := cs) (· ≠ ']')).length_le
  simp only [afterSet, List.length_tail]; omega

/-- The tokens of the rest of a pattern, of which `position` characters lie behind, the last of them
`previous`. -/
def tokensFrom (position : Nat) (previous : Option Char) : List Char → Except Error (List Token)
  | [] => .ok []
  | '?' :: cs => do .ok (.anyChar :: (← tokensFrom (position + 1) (some '?') cs))
  | '*' :: '*' :: '*' :: _ => .error ⟨position + 2, .asterisks⟩
  | '*' :: '*' :: cs =>
    if previous.all (· = '/') then
      match cs with
      | [] => .ok [.anyDepth]
      | '/' :: cs => do .ok (.anyDepth :: (← tokensFrom (position + 3) (some '/') cs))
      | _ => .error ⟨position + 2, .depth⟩
    else .error ⟨position - 1, .depth⟩
  | '*' :: cs => do .ok (.anyChars :: (← tokensFrom (position + 1) (some '*') cs))
  | '[' :: '!' :: c :: cs =>
    match set? c cs true with
    | some t => do
      let rest := afterSet cs
      .ok (t :: (← tokensFrom (position + 3 + (cs.length - rest.length)) (some ']') rest))
    | none => .error ⟨position, .set⟩
  | '[' :: c :: cs =>
    match if c = '!' then none else set? c cs false with
    | some t => do
      let rest := afterSet cs
      .ok (t :: (← tokensFrom (position + 2 + (cs.length - rest.length)) (some ']') rest))
    | none => .error ⟨position, .set⟩
  | ['['] => .error ⟨position, .set⟩
  | c :: cs => do .ok (.char c :: (← tokensFrom (position + 1) (some c) cs))
termination_by cs => cs.length
decreasing_by
  all_goals try (simp only [List.length_cons]; omega)
  all_goals have := length_afterSet cs; simp only [List.length_cons]; omega

def tokens (pattern : String) : Except Error (List Token) := tokensFrom 0 none pattern.toList

def Token.accepts (c : Char) : Token → Bool
  | char d => c = d
  | anyChar => true
  | set rs negated => rs.any (fun r => r.1 ≤ c && c ≤ r.2) != negated
  | anyChars | anyDepth => false

def Token.isRun : Token → Bool
  | anyChars | anyDepth => true
  | _ => false

def suffixes : List Char → List (List Char)
  | [] => [[]]
  | c :: cs => (c :: cs) :: suffixes cs

def covers : List Token → List Char → Bool
  | [], cs => cs.isEmpty
  | t :: ts, cs =>
    if t.isRun then (suffixes cs).any (covers ts)
    else
      match cs with
      | [] => false
      | c :: cs => t.accepts c && covers ts cs

def sometime : List Bool → List Bool
  | [] => []
  | b :: bs =>
    let later := sometime bs
    (b || later.head?.getD false) :: later

/-- Whether tokens stand for what is left of the characters after none of them, after one, and so on. The
answers for the tokens after the first are found once, so that no more work is done than there are places
and tokens. -/
def coversEach (cs : List Char) : List Token → List Bool
  | [] => (suffixes cs).map List.isEmpty
  | t :: ts =>
    let rest := coversEach cs ts
    if t.isRun then sometime rest else cs.zipWith (fun c b => t.accepts c && b) rest.tail ++ [false]

def accepts (ts : List Token) (name : String) : Bool := (coversEach name.toList ts).head?.getD false

theorem head_sometime (bs : List Bool) : (sometime bs).head?.getD false = bs.any id := by
  induction bs with
  | nil => rfl
  | cons b bs ih => simp [sometime, ih]

theorem sometime_map_suffixes (f : List Char → Bool) (cs : List Char) :
    sometime ((suffixes cs).map f) = (suffixes cs).map fun ds => (suffixes ds).any f := by
  induction cs with
  | nil => simp [suffixes, sometime]
  | cons c cs ih =>
    have h := head_sometime ((suffixes cs).map f)
    rw [ih] at h
    simp only [suffixes, List.map_cons, sometime, ih, h, List.any_cons, List.any_map, Function.comp_def, id]

theorem zipWith_map_suffixes (f : List Char → Bool) (t : Token) (cs : List Char) :
    cs.zipWith (fun c b => t.accepts c && b) ((suffixes cs).map f).tail ++ [false] =
      (suffixes cs).map fun | [] => false | c :: ds => t.accepts c && f ds := by
  induction cs with
  | nil => simp [suffixes]
  | cons c cs ih =>
    cases cs with
    | nil => simp [suffixes]
    | cons d ds => simpa [suffixes] using ih

theorem coversEach_eq (cs : List Char) (ts : List Token) : coversEach cs ts = (suffixes cs).map (covers ts) := by
  induction ts with
  | nil => simp only [coversEach]; rfl
  | cons t ts ih =>
    rw [coversEach, ih]
    by_cases h : t.isRun
    · rw [if_pos h, sometime_map_suffixes]
      congr 1; funext ds; simp [covers, h]
    · rw [if_neg h, zipWith_map_suffixes]
      congr 1; funext ds; cases ds <;> simp [covers, h]

theorem accepts_eq_covers (ts : List Token) (name : String) : accepts ts name = covers ts name.toList := by
  rw [accepts, coversEach_eq]
  cases name.toList <;> simp [suffixes]

def Token.char? : Token → Option Char
  | char c => some c
  | _ => none

def literal? (ts : List Token) : Option String := (ts.mapM Token.char?).map String.ofList

end Wildcard
end BracketTree
