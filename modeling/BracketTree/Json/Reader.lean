import BracketTree.Json
import BracketTree.Text.Hex

/-! Reading JSON. A text is first cut into tokens, in which scalars are already values; a stack machine then
puts the tokens together, so that a value may nest as deep as it likes. -/

namespace BracketTree.Json

inductive Token where
  | openArray
  | closeArray
  | openObject
  | closeObject
  | colon
  | comma
  | scalar (j : Json)

def escaped? : Char → Option Char
  | '"' => some '"'
  | '\\' => some '\\'
  | '/' => some '/'
  | 'b' => some '\x08'
  | 'f' => some '\x0c'
  | 'n' => some '\n'
  | 'r' => some '\r'
  | 't' => some '\t'
  | _ => none

/-- The rest of a string up to its closing quote, and what follows the quote. Characters below the space may
only be escaped. -/
def string? (acc : List StringUnit) : List Char → Option (List StringUnit × List Char)
  | [] => none
  | '"' :: cs => some (acc.reverse, cs)
  | '\\' :: 'u' :: a :: b :: c :: d :: cs =>
    match Text.hexNumber? [a, b, c, d] with
    | some n => string? (.code n :: acc) cs
    | none => none
  | '\\' :: c :: cs =>
    match escaped? c with
    | some e => string? (.char e :: acc) cs
    | none => none
  | c :: cs => if c.toNat < 0x20 then none else string? (.char c :: acc) cs

theorem length_string? {acc us : List StringUnit} {cs rest : List Char}
    (h : string? acc cs = some (us, rest)) : rest.length < cs.length := by
  fun_induction string? acc cs with
  | case1 => simp at h
  | case2 acc cs => simp only [Option.some.injEq, Prod.mk.injEq] at h; simp [← h.2]
  | case3 acc a b c d cs n hn ih => have := ih h; simp only [List.length_cons]; omega
  | case4 => simp at h
  | case5 acc c cs _ e he ih => have := ih h; simp only [List.length_cons]; omega
  | case6 => simp at h
  | case7 => simp at h
  | case8 acc c cs _ _ _ _ ih => have := ih h; simp only [List.length_cons]; omega

def digits (cs : List Char) : List Char × List Char := cs.span Char.isDigit

/-- Whether what follows the whole part of a number is an optional fraction and an optional exponent. -/
def isNumberTail (cs : List Char) : Bool :=
  match cs with
  | '.' :: cs =>
    let (fraction, cs) := digits cs
    !fraction.isEmpty && isExponent cs
  | cs => isExponent cs
where
  /-- Nothing at all, or a mark, an optional sign, and digits up to the end. -/
  isExponent : List Char → Bool
    | [] => true
    | e :: cs =>
      (e = 'e' || e = 'E') &&
        match cs with
        | '+' :: ds => !ds.isEmpty && ds.all Char.isDigit
        | '-' :: ds => !ds.isEmpty && ds.all Char.isDigit
        | ds => !ds.isEmpty && ds.all Char.isDigit

def isNumber (cs : List Char) : Bool :=
  let cs := match cs with | '-' :: cs => cs | cs => cs
  match digits cs with
  | ([], _) => false
  | (['0'], rest) => isNumberTail rest
  | ('0' :: _, _) => false
  | (_, rest) => isNumberTail rest

def isNumberChar (c : Char) : Bool := c.isDigit || c ∈ ['-', '+', '.', 'e', 'E']

/-- Cuts a text into tokens, after the ones in `acc`, the last of which comes first. -/
def tokensFrom (acc : List Token) : List Char → Option (List Token)
  | [] => some acc.reverse
  | '[' :: cs => tokensFrom (.openArray :: acc) cs
  | ']' :: cs => tokensFrom (.closeArray :: acc) cs
  | '\x7b' :: cs => tokensFrom (.openObject :: acc) cs
  | '\x7d' :: cs => tokensFrom (.closeObject :: acc) cs
  | ':' :: cs => tokensFrom (.colon :: acc) cs
  | ',' :: cs => tokensFrom (.comma :: acc) cs
  | ' ' :: cs => tokensFrom acc cs
  | '\t' :: cs => tokensFrom acc cs
  | '\n' :: cs => tokensFrom acc cs
  | '\r' :: cs => tokensFrom acc cs
  | '"' :: cs =>
    match _h : string? [] cs with
    | some (us, rest) => tokensFrom (.scalar (.string us) :: acc) rest
    | none => none
  | 'n' :: 'u' :: 'l' :: 'l' :: cs => tokensFrom (.scalar .null :: acc) cs
  | 't' :: 'r' :: 'u' :: 'e' :: cs => tokensFrom (.scalar (.bool true) :: acc) cs
  | 'f' :: 'a' :: 'l' :: 's' :: 'e' :: cs => tokensFrom (.scalar (.bool false) :: acc) cs
  | c :: cs =>
    let spelling := c :: cs.takeWhile isNumberChar
    if isNumber spelling then tokensFrom (.scalar (.number spelling) :: acc) (cs.dropWhile isNumberChar)
    else none
termination_by cs => cs.length
decreasing_by
  all_goals try (simp only [List.length_cons]; omega)
  · have := length_string? _h; simp only [List.length_cons]; omega
  · have := (List.dropWhile_suffix (l := cs) isNumberChar).length_le; simp only [List.length_cons]; omega

/-- A value that has begun and waits for the value inside it: an array with the items before, or an object
with the members before and the key of the next. What came last is first. -/
inductive Frame where
  | array (items : List Json)
  | member (members : List (List StringUnit × Json)) (key : List StringUnit)

inductive State where
  | value (outer : List Frame)
  | firstItem (outer : List Frame)
  | afterItem (items : List Json) (outer : List Frame)
  | firstKey (outer : List Frame)
  | key (members : List (List StringUnit × Json)) (outer : List Frame)
  | afterKey (members : List (List StringUnit × Json)) (key : List StringUnit) (outer : List Frame)
  | afterMember (members : List (List StringUnit × Json)) (outer : List Frame)
  | done (j : Json)

def State.give (j : Json) : List Frame → State
  | [] => done j
  | .array items :: outer => afterItem (j :: items) outer
  | .member members k :: outer => afterMember ((k, j) :: members) outer

def State.start (outer : List Frame) : Token → Option State
  | .scalar j => some (give j outer)
  | .openArray => some (firstItem outer)
  | .openObject => some (firstKey outer)
  | _ => none

def State.step : State → Token → Option State
  | value outer, t => start outer t
  | firstItem outer, .closeArray => some (give (.array []) outer)
  | firstItem outer, t => start (.array [] :: outer) t
  | afterItem items outer, .comma => some (value (.array items :: outer))
  | afterItem items outer, .closeArray => some (give (.array items.reverse) outer)
  | firstKey outer, .closeObject => some (give (.object []) outer)
  | firstKey outer, .scalar (.string k) => some (afterKey [] k outer)
  | key members outer, .scalar (.string k) => some (afterKey members k outer)
  | afterKey members k outer, .colon => some (value (.member members k :: outer))
  | afterMember members outer, .comma => some (key members outer)
  | afterMember members outer, .closeObject => some (give (.object members.reverse) outer)
  | _, _ => none

def read? (text : String) : Option Json := do
  match ← (← tokensFrom [] text.toList).foldlM State.step (.value []) with
  | .done j => some j
  | _ => none

end BracketTree.Json
